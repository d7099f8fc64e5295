import Amberchain.Permission.GrantRows
import Amberchain.Transaction.CheckPoint
import Amberchain.Transaction.PassRules

/-!
# Who signs the grants of a transaction

The first three passes grant permissions while they scan the outputs.  Who may sign is
looked up in the first pass, before any grant that could make a difference, so every row
that is added was signed by an input that could have signed it before the transaction.
-/

namespace Amberchain.Transaction

open Entity Permission Failing
open Permission.Store (RowsAdded SameSigners)

/-- The row comes from a permission element of an output, and input `i` signed it with an
address that was entitled to that in the permissions of `start`. -/
structure SignedElement (env : TxEnv) (assets : AssetDB) (tx : Tx) (inputs : Inputs)
    (start : Store) (i j e : ℕ) (output : TxOut) (element : McScript.PermissionElement)
    (row : LedgerRow) : Prop where
  vout : tx.vout[j]? = some output
  permission : ((McScript.setScript env.params output.scriptPubKey).setElement e).getPermission
    = .ok element
  entity : row.key.entity
    = (elementEntity assets (McScript.setScript env.params output.scriptPubKey) e).key.key
  address : ((Script.extractDestinations env.script env.params
    output.scriptPubKey).addresses.headD .none).address = some row.key.address
  type : row.key.type &&& element.type ≠ 0
  granted : row.grantFrom = element.blockFrom ∧ row.grantTo = element.blockTo
  signs : inputs.signs i j = true
  signer : inputs.destination i ≠ 0
  admin : row.admin = inputs.destination i ∨ row.admin = row.key.address
  entitled : start.mayGrant env.params row.key.entity row.key.type (inputs.destination i) = true

def SignedGrant (env : TxEnv) (assets : AssetDB) (tx : Tx) (inputs : Inputs) (start : Store)
    (row : LedgerRow) : Prop :=
  ∃ i j e output element, SignedElement env assets tx inputs start i j e output element row

def permissionPasses (env : TxEnv) (tx : Tx) (inputs : Inputs) (offset : ℤ)
    (seedNode : Option Hash160) : TxM Unit := do
  runPass env tx inputs offset seedNode 0
  runPass env tx inputs offset seedNode 1
  runPass env tx inputs offset seedNode 2

theorem processOutputs_eq (env : TxEnv) (tx : Tx) (inputs : Inputs) (offset : ℤ)
    (seedNode : Option Hash160) :
    processOutputs env tx inputs offset seedNode = (do
      permissionPasses env tx inputs offset seedNode
      runPass env tx inputs offset seedNode 3
      compareAssets env inputs) := by
  funext state
  unfold processOutputs permissionPasses
  simp only [bind_apply]
  cases runPass env tx inputs offset seedNode 0 state with
  | error => rfl
  | ok _ first =>
    dsimp only
    cases runPass env tx inputs offset seedNode 1 first <;> rfl

theorem exists_passMask (params : ChainParams) (pass : ℕ) :
    ∃ mask, ∀ type, passType params pass type = type &&& mask := by
  match pass with
  | 0 =>
    cases hcached : params.cachedInputScript with
    | true => exact ⟨_, fun type => by simp only [passType, hcached, if_true]; rfl⟩
    | false => exact ⟨_, fun type => by simp only [passType, hcached]; rfl⟩
  | 1 =>
    cases hcached : params.cachedInputScript with
    | true => exact ⟨_, fun type => by simp only [passType, hcached, if_true]; rfl⟩
    | false => exact ⟨0, fun type => by simp only [passType, hcached]; simp⟩
  | 2 =>
    cases hcached : params.cachedInputScript with
    | true => exact ⟨_, fun type => by simp only [passType, hcached, if_true]; rfl⟩
    | false => exact ⟨_, fun type => by simp only [passType, hcached]; rfl⟩
  | _ + 3 => exact ⟨0, fun type => by simp [passType]⟩

theorem and_ne_zero_of_passType {params : ChainParams} {pass : ℕ} {type mask : PermType}
    (hmask : type &&& passType params pass mask ≠ 0) : type &&& mask ≠ 0 := by
  obtain ⟨passMask, hpass⟩ := exists_passMask params pass
  rw [hpass, ← BitVec.and_assoc] at hmask
  intro hzero
  rw [hzero] at hmask
  exact hmask BitVec.zero_and

theorem type_ne_of_firstPass {params : ChainParams} {type mask : PermType}
    (hmask : type &&& passType params 0 mask ≠ 0) :
    type ≠ MC_PTP_ADMIN ∧ type ≠ MC_PTP_ACTIVATE := by
  have hnone (other : PermType) (hother : other = MC_PTP_ADMIN ∨ other = MC_PTP_ACTIVATE) :
      other &&& passType params 0 mask = 0 := by
    change other &&& (if params.cachedInputScript then
        mask &&& (MC_PTP_CONNECT ||| MC_PTP_SEND ||| MC_PTP_RECEIVE ||| MC_PTP_WRITE)
      else mask &&& ~~~(MC_PTP_ACTIVATE ||| MC_PTP_ADMIN)) = 0
    split
    · have hkept : other &&& (MC_PTP_CONNECT ||| MC_PTP_SEND ||| MC_PTP_RECEIVE ||| MC_PTP_WRITE)
          = 0 := by rcases hother with rfl | rfl <;> decide
      rw [BitVec.and_comm mask, ← BitVec.and_assoc, hkept]
      exact BitVec.zero_and
    have hkept : other &&& ~~~(MC_PTP_ACTIVATE ||| MC_PTP_ADMIN) = 0 := by
      rcases hother with rfl | rfl <;> decide
    rw [BitVec.and_comm mask, ← BitVec.and_assoc, hkept]
    exact BitVec.zero_and
  constructor
  · rintro rfl
    exact hmask (hnone _ (.inl rfl))
  rintro rfl
  exact hmask (hnone _ (.inr rfl))

theorem checksAdminList_of_pass {params : ChainParams} {pass : ℕ} {type : PermType}
    (hpass : pass ≠ 0) (htype : passType params pass type ≠ 0) :
    checksAdminList params type = true := by
  unfold checksAdminList
  cases hcached : params.cachedInputScript with
  | true => rfl
  | false =>
    rw [Bool.false_or, decide_eq_true_eq]
    intro hzero
    match pass with
    | 1 => simp [passType, hcached] at htype
    | 2 => simp [passType, hcached, hzero] at htype
    | _ + 3 => simp [passType] at htype

/-- The input signs the output of the element, and its address has the permission on the
entity of the element. -/
structure Listed (env : TxEnv) (assets : AssetDB) (tx : Tx) (inputs : Inputs)
    (can : Hash256 → Hash160 → PermType) (i j e : ℕ) : Prop where
  signs : inputs.signs i j = true
  can : ∀ output, tx.vout[j]? = some output →
    can (elementEntity assets (McScript.setScript env.params output.scriptPubKey) e).key.key
      (inputs.destination i) ≠ 0

structure PassStore (property : LedgerRow → Prop) (params : ChainParams) (start : Store) (pass : ℕ)
    (store : Store) : Prop where
  live : store.Live
  added : RowsAdded property start store
  signers : pass = 0 → SameSigners params start store

structure Granting (env : TxEnv) (assets : AssetDB) (tx : Tx) (inputs : Inputs) (start : Store)
    (pass : ℕ) (state : TxState) : Prop where
  assets_eq : state.assets = assets
  store : PassStore (SignedGrant env assets tx inputs start) env.params start pass
    state.permissions
  admins : ∀ i j e, (i, j, e) ∈ state.allowedAdmins →
    Listed env assets tx inputs (start.canAdmin env.params) i j e
  activators : ∀ i j e, (i, j, e) ∈ state.allowedActivators →
    Listed env assets tx inputs (start.canActivate env.params) i j e

variable {env : TxEnv} {assets : AssetDB} {tx : Tx} {inputs : Inputs} {start : Store} {pass : ℕ}
  {offset : ℤ} {seedNode : Option Hash160} {state : TxState}

theorem PassStore.next {property : LedgerRow → Prop} {params : ChainParams} {store : Store}
    (hstore : PassStore property params start pass store) {later : ℕ} (hlater : later ≠ 0) :
    PassStore property params start later store :=
  ⟨hstore.live, hstore.added, fun hzero => absurd hzero hlater⟩

theorem Granting.next (hgranting : Granting env assets tx inputs start pass state) {later : ℕ}
    (hlater : later ≠ 0) : Granting env assets tx inputs start later state :=
  ⟨hgranting.assets_eq, hgranting.store.next hlater, hgranting.admins, hgranting.activators⟩

theorem Granting.of_same {next : TxState} (hsame : SamePermissions state next)
    (hgranting : Granting env assets tx inputs start pass state) :
    Granting env assets tx inputs start pass next := by
  obtain ⟨hassets, hstore, hadmins, hactivators⟩ := hgranting
  refine ⟨hsame.assets.trans hassets, ?_, ?_, ?_⟩
  · rwa [hsame.permissions]
  · rwa [hsame.allowedAdmins]
  rwa [hsame.allowedActivators]

theorem Inputs.signs_of_mem_signers {i j : ℕ} (hmem : i ∈ inputs.signers j) :
    inputs.signs i j = true :=
  (List.mem_filter.mp hmem).2

variable {output : TxOut}

/-- The input may sign the grant of an element, by the lists or by its signature. -/
theorem Granting.entitled {checkList : Bool} {type : PermType} {i j e : ℕ}
    (hgranting : Granting env assets tx inputs start pass state) (houtput : tx.vout[j]? = some output)
    (heligible : eligible inputs state checkList type i j e = true) (hlist : checkList = true) :
    inputs.signs i j = true ∧ start.mayGrant env.params
      (elementEntity assets (McScript.setScript env.params output.scriptPubKey) e).key.key type
      (inputs.destination i) = true := by
  subst hlist
  unfold eligible at heligible
  rw [if_pos rfl] at heligible
  unfold Store.mayGrant
  rw [decide_eq_true_eq]
  split at heligible
  next henough =>
    have hlisted := hgranting.activators i j e (of_decide_eq_true heligible)
    exact ⟨hlisted.signs, .inr ⟨henough, hlisted.can output houtput⟩⟩
  · have hlisted := hgranting.admins i j e (of_decide_eq_true heligible)
    exact ⟨hlisted.signs, .inl (hlisted.can output houtput)⟩

variable {element : McScript.PermissionElement}

/-- The grant of an eligible input adds rows that it was entitled to sign. -/
theorem Granting.setPermission {i j e : ℕ}
    {store : Store} (hgranting : Granting env assets tx inputs start pass state)
    (houtput : tx.vout[j]? = some output)
    (helement : ((McScript.setScript env.params output.scriptPubKey).setElement e).getPermission
      = .ok element) (hdestination : ((Script.extractDestinations env.script env.params
      output.scriptPubKey).addresses.headD .none) ≠ .none)
    (heligible : eligible inputs state (checksAdminList env.params element.type)
      (passType env.params pass element.type) i j e = true) (hsigner : inputs.destination i ≠ 0)
    (hstore : PassStore (SignedGrant env assets tx inputs start) env.params start pass store) :
    PassStore (SignedGrant env assets tx inputs start) env.params start pass
      (store.setPermission env.params (elementGrant inputs offset
          (elementEntity assets (McScript.setScript env.params output.scriptPubKey) e)
          ((Script.extractDestinations env.script env.params
            output.scriptPubKey).addresses.headD .none)
          (passType env.params pass element.type) element i)).1 := by
  generalize hdest : (Script.extractDestinations env.script env.params
    output.scriptPubKey).addresses.headD .none = destination at hdestination ⊢
  have hflags : (elementGrant inputs offset
      (elementEntity assets (McScript.setScript env.params output.scriptPubKey) e) destination
      (passType env.params pass element.type) element i).flags &&& MC_PFL_ENTITY_GENESIS = 0 := by
    cases destination <;> dsimp only [elementGrant] <;> decide
  refine Store.setPermission_grants hflags (fun hmay current row next hcurrent hgrants => ?_) hstore
  have hmask := hgrants.ofGrant.mask
  have hnonzero : passType env.params pass element.type ≠ 0 := by
    intro hzero
    refine hmask ?_
    rw [hzero]
    exact BitVec.and_zero
  have hentitled : inputs.signs i j = true ∧ start.mayGrant env.params
      (elementEntity assets (McScript.setScript env.params output.scriptPubKey) e).key.key
      (passType env.params pass element.type) (inputs.destination i) = true := by
    cases hlist : checksAdminList env.params element.type with
    | true =>
      rw [hlist] at heligible
      exact hgranting.entitled houtput heligible rfl
    | false =>
      -- only in the first pass, where the live permissions say who may sign
      have hfirst : pass = 0 := by
        by_contra hlater
        rw [checksAdminList_of_pass hlater hnonzero] at hlist
        cases hlist
      rw [hlist] at heligible
      refine ⟨heligible, ?_⟩
      rw [← (hstore.signers hfirst).mayGrant_eq]
      exact hmay
  have haddress : destination.address = some row.key.address := by
    rw [hgrants.ofGrant.address]
    cases destination with
    | none => exact absurd rfl hdestination
    | key id => rfl
    | script id => rfl
  have hrow : SignedGrant env assets tx inputs start row := by
    refine ⟨i, j, e, output, element, houtput, helement, hgrants.ofGrant.entity, hdest ▸ haddress,
      and_ne_zero_of_passType hmask, hgrants.ofGrant.granted, hentitled.1, hsigner, ?_, ?_⟩
    · rw [hgrants.ofGrant.address]
      exact hgrants.ofGrant.admin
    rw [hgrants.ofGrant.entity]
    exact Store.mayGrant_of_mask hgrants.ofGrant.type hmask hentitled.2
  refine ⟨hcurrent.live.append hgrants.appended, hcurrent.added.append hgrants.appended hrow,
    fun hfirst => ?_⟩
  subst hfirst
  obtain ⟨hadmin, hactivate⟩ := type_ne_of_firstPass hmask
  exact (hcurrent.signers rfl).trans (hgrants.sameSigners hcurrent.live hadmin hactivate)

theorem listEligible_granting {j e : ℕ} (houtput : tx.vout[j]? = some output) :
    Keeps (Granting env assets tx inputs start 0) (listEligible env inputs
        (elementEntity assets (McScript.setScript env.params output.scriptPubKey) e) j e) := by
  refine Keeps.modify fun state hstate => ?_
  have hsigners := hstate.store.signers rfl
  have hlisted (can : Hash256 → Hash160 → PermType) (old : List (ℕ × ℕ × ℕ)) (i j' e' : ℕ)
      (hold : (i, j', e') ∈ old → Listed env assets tx inputs can i j' e')
      (hmem : (i, j', e') ∈ old ++ ((inputs.signers j).filter fun i =>
        can (elementEntity assets (McScript.setScript env.params output.scriptPubKey) e).key.key
          (inputs.destination i) ≠ 0).map fun i => (i, j, e)) :
      Listed env assets tx inputs can i j' e' := by
    rcases List.mem_append.mp hmem with hmem | hmem
    · exact hold hmem
    obtain ⟨i', hfilter, heq⟩ := List.mem_map.mp hmem
    obtain ⟨rfl, rfl, rfl⟩ := heq
    obtain ⟨hsigns, hcan⟩ := List.mem_filter.mp hfilter
    refine ⟨Inputs.signs_of_mem_signers hsigns, fun output' houtput' => ?_⟩
    rw [houtput] at houtput'
    obtain rfl := Option.some.inj houtput'
    exact of_decide_eq_true hcan
  refine ⟨hstate.assets_eq, hstate.store, fun i j' e' hmem => ?_, fun i j' e' hmem => ?_⟩
  · refine hlisted _ _ i j' e' (hstate.admins i j' e') ?_
    simpa only [hsigners.canAdmin] using hmem
  refine hlisted _ _ i j' e' (hstate.activators i j' e') ?_
  simpa only [hsigners.canActivate] using hmem

theorem grantElement_granting {j e : ℕ} (houtput : tx.vout[j]? = some output)
    (helement : ((McScript.setScript env.params output.scriptPubKey).setElement e).getPermission
      = .ok element) : Keeps (Granting env assets tx inputs start pass)
      (grantElement env inputs offset seedNode
        (Script.extractDestinations env.script env.params output.scriptPubKey)
        (elementEntity assets (McScript.setScript env.params output.scriptPubKey) e)
        (passType env.params pass element.type) element j e) := by
  refine rejectIf_bind (fun _ hstate => hstate) fun haccepted => ?_
  have hdestination := (not_or.mp (of_decide_eq_false haccepted)).1
  refine Keeps.bind (keeps_onlyIf fun _ =>
    keeps_change (fun _ _ hsame hstate => hstate.of_same hsame)
      fun _ => ⟨rfl, rfl, rfl, rfl⟩) fun _ => ?_
  refine Preserves.get_bind fun before hbefore => ?_
  have hmark (change : TxState → TxState) (hchange : ∀ state, SamePermissions state (change state)) :
      Triple (fun now => now = before) (modify change : TxM Unit)
        (fun _ => Granting env assets tx inputs start pass)
        (Granting env assets tx inputs start pass) := by
    rintro now rfl
    exact hbefore.of_same (hchange now)
  refine Triple.bind (hmark _ fun _ => ⟨rfl, rfl, rfl, rfl⟩) fun _ =>
    Keeps.bind (fun state hstate => ?_) fun _ => keeps_rejectIf
  refine ⟨hstate.assets_eq, ?_, hstate.admins, hstate.activators⟩
  refine anyInput_keeps _ (fun i hmem store hstore => ?_) _ hstate.store
  obtain ⟨hsigner, -⟩ := List.mem_filter.mp hmem
  obtain ⟨-, hsigner⟩ := List.mem_filter.mp hsigner
  obtain ⟨heligible, hnonzero⟩ := Bool.and_eq_true_iff.mp hsigner
  exact hbefore.setPermission houtput helement hdestination heligible
    (of_decide_eq_true hnonzero) hstore

theorem permissionElement_granting {j e : ℕ} (houtput : tx.vout[j]? = some output)
    (helement : ((McScript.setScript env.params output.scriptPubKey).setElement e).getPermission
      = .ok element) : Keeps (Granting env assets tx inputs start pass)
      (permissionElement env inputs offset seedNode pass
        (Script.extractDestinations env.script env.params output.scriptPubKey)
        (elementEntity assets (McScript.setScript env.params output.scriptPubKey) e) element j e) := by
  refine Keeps.bind keeps_rejectIf fun _ => ?_
  refine Keeps.bind (keeps_onlyIf fun _ =>
    keeps_change (fun _ _ hsame hstate => hstate.of_same hsame)
      fun _ => ⟨rfl, rfl, rfl, rfl⟩) fun _ => ?_
  refine Keeps.bind (keeps_onlyIf fun hlist => ?_) fun _ =>
    keeps_onlyIf fun _ => grantElement_granting houtput helement
  obtain ⟨rfl, -⟩ := of_decide_eq_true hlist
  exact listEligible_granting houtput

theorem metadataOutput_granting (hpass : pass ≠ 3) (script : McScript) (j : ℕ) :
    Keeps (Granting env assets tx inputs start pass)
      (metadataOutput env tx inputs offset pass script j) := by
  refine Keeps.bind (keeps_onlyIf fun hfirst => ?_) fun _ => keeps_onlyIf fun hlast => ?_
  · exact checkMetadata_keeps (fun _ _ hsame hstate => hstate.of_same hsame) script j
  exact absurd (of_decide_eq_true hlast).1 hpass

theorem granting_pass (hpass : pass ≠ 3) : PassInvariant env tx inputs offset seedNode assets pass
      (Granting env assets tx inputs start pass) (Granting env assets tx inputs start pass) where
  mayFail := fun _ hstate => hstate
  assets_eq := fun _ hstate => hstate.assets_eq
  same := fun _ _ hsame hstate => hstate.of_same hsame.toSamePermissions
  element := fun _ _ _ _ houtput _ helement => permissionElement_granting houtput helement
  metadata := fun j _ _ _ => metadataOutput_granting hpass _ j

theorem permissionPasses_granting : Triple (Granting env assets tx inputs start 0)
      (permissionPasses env tx inputs offset seedNode)
      (fun _ => Granting env assets tx inputs start 3) (Granting env assets tx inputs start 3) := by
  have hrun (pass later : ℕ) (hpass : pass ≠ 3) (hlater : later ≠ 0) :
      Triple (Granting env assets tx inputs start pass)
        (runPass env tx inputs offset seedNode pass)
        (fun _ => Granting env assets tx inputs start later)
        (Granting env assets tx inputs start 3) :=
    (granting_pass hpass).runPass.weaken (fun _ hstate => hstate)
      (fun _ _ hstate => hstate.next hlater) fun _ hstate => hstate.next (by decide)
  exact Triple.bind (hrun 0 1 (by decide) (by decide)) fun _ =>
    Triple.bind (hrun 1 2 (by decide) (by decide)) fun _ => hrun 2 3 (by decide) (by decide)

theorem granting_checkPointed {chain : Chain} (hlive : chain.permissions.Live) :
    Granting env chain.assets tx inputs chain.permissions 0 (checkPointed inputs chain) where
  assets_eq := rfl
  store := ⟨hlive.of_frame (RecordsAdded.refl _) rfl, ⟨rfl, rfl, rfl, rfl, [], (List.append_nil _).symm,
    List.forall_mem_nil _⟩, fun _ => ⟨fun _ _ => rfl, fun _ _ => rfl⟩⟩
  admins := fun _ _ _ hmem => nomatch hmem
  activators := fun _ _ _ hmem => nomatch hmem

/-- Every row that the passes over the permission elements add was signed by an input
whose address was an admin of the entity before the transaction, or an activator where
that is enough, whether the transaction is accepted in the end or not. -/
theorem permissionPasses_signed {chain : Chain}
    (hreach : Store.Reachable env.params chain.permissions) :
    RowsAdded (SignedGrant env chain.assets tx inputs chain.permissions) chain.permissions
      (finalState (permissionPasses env tx inputs offset chain.seedNode
        (checkPointed inputs chain))).permissions :=
  (permissionPasses_granting.finalState (granting_checkPointed hreach.live)).store.added

def minerInputs : Inputs where
  inputs := [⟨.pubkeyHash, Store.firstMiner, .all⟩]
  scriptHashAllFound := true
  rejectIfOpDropOpReturn := false
  checkCachedScript := true
  canGrantAdminMine := [false]
  amounts := []

theorem permissionPasses_signed_grant :
    scanInputs minedOnceEnv minedOnceChain.assets minedOnceChain.permissions grantTx
        = .ok minerInputs
      ∧ RowsAdded (SignedGrant minedOnceEnv minedOnceChain.assets grantTx minerInputs
          minedOnceChain.permissions) minedOnceChain.permissions
        (finalState (permissionPasses minedOnceEnv grantTx minerInputs (-1)
          minedOnceChain.seedNode (checkPointed minerInputs minedOnceChain))).permissions :=
  ⟨rfl, @permissionPasses_signed minedOnceEnv grantTx minerInputs (-1) minedOnceChain
    Store.minedOnce_reachable⟩

end Amberchain.Transaction
