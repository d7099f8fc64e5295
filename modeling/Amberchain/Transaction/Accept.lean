import Amberchain.Transaction.Issue
import Amberchain.Base.Folding
import Mathlib.Data.List.GetD

/-!
# Accepting a transaction

`AcceptMultiChainTransaction` as a whole: the inputs, a checkpoint, the passes over
the outputs, the comparison of assets, an issue, a new stream or upgrade, and the
rollback to the checkpoint unless the transaction is accepted for good.
-/

namespace Amberchain.Transaction

open Entity Permission

variable (env : TxEnv) (tx : Tx) (inputs : Inputs) (offset : ℤ)

def openersOf (store : Store) (entityType output : ℕ) : List (Hash160 × BitVec 32) :=
  ((inputs.signers output).filter fun i =>
    store.canCreate env.params nullEntity (inputs.destination i) ≠ 0
      ∧ (entityType ≠ MC_ENT_TYPE_UPGRADE
        ∨ store.canAdmin env.params nullEntity (inputs.destination i) ≠ 0)).map fun i =>
    (inputs.destination i,
      if inputs.scriptType i = .scriptHash then MC_PFL_IS_SCRIPTHASH else 0)

def entityGrants (entityType : ℕ) (openers : List (Hash160 × BitVec 32)) (accept : Bool) :
    List Grant :=
  if entityType = MC_ENT_TYPE_UPGRADE then []
  else
    genesisGrant offset tx.hash 0 MC_PTP_CONNECT (openers.headD (0, 0)).1 0 accept ::
      (distinctIssuers openers).map fun opener =>
        genesisGrant offset tx.hash opener.1 (MC_PTP_ADMIN ||| MC_PTP_ACTIVATE ||| MC_PTP_WRITE)
          opener.1 opener.2 accept

def genesisApproval (startBlock : ℕ) (accept : Bool) : Store.Approval where
  upgrade := shortTxid tx.hash
  approval := 1
  admin := none
  blockFrom := startBlock
  timestamp := env.time
  flags := MC_PFL_ENTITY_GENESIS
  updateMempool := accept
  offset := BitVec.ofInt 32 offset

/-- `InsertEntity`, for an upgrade with its first approval. -/
def insertNewEntity (entityType : ℕ) (details : Bytes) (openers : List (Hash160 × BitVec 32))
    (accept : Bool) (assets : AssetDB) (store : Store) : AssetDB × Store × Option McError :=
  let issue : Issue := ⟨tx.hash, offset, details, issuerParams openers, accept⟩
  match assets.insertEntity env.params issue entityType with
  | (assets, .error err) => (assets, store, some err)
  | (assets, .ok startBlock) =>
    if env.params.upgrades ∧ entityType = MC_ENT_TYPE_UPGRADE then
      let (store, err) := store.setApproval env.params
        (genesisApproval env tx offset startBlock accept)
      (assets, store, err)
    else (assets, store, none)

def entityReason (err : Option McError) : String :=
  if err = some .errorInScript then "New entity script rejected - error in script"
  else if err = some .found then
    "New entity script rejected - entity with this name already exists"
  else "New entity script rejected - could not insert new entity to database"

def acceptNewEntity (accept : Bool) (output : ℕ) : TxM Unit := do
  modify fun state => { state with fullReplayCheckRequired := true }
  let state ← get
  let entityType := state.newEntityType
  let openers := openersOf env inputs state.permissions entityType output
  rejectIf openers.isEmpty "Metadata script rejected - Inputs don't belong to valid creator"
  let granted ← applyGrants env.params (entityGrants tx offset entityType openers accept)
  rejectIf granted.isSome " Cannot update permission database for new entity"
  let inserted ← modifyGet fun state =>
    let result :=
      insertNewEntity env tx offset entityType state.detailsScript openers accept state.assets
        state.permissions
    (result.2.2, { state with assets := result.1, permissions := result.2.1 })
  rejectIf inserted.isSome (entityReason inserted)
  let state ← get
  rejectIf (accept ∧ (state.assets.findEntityByTxID tx.hash).isNone)
    "New entity script rejected - could not insert new entity to database"

/-- `mc_CompareAssetQuantities` on the amounts of the state. -/
def compareAssets : TxM Unit := do
  let state ← get
  match compareAssetQuantities env.params state.assets inputs.amounts state.amountsOut with
  | .error reason => throw reason
  | .ok () => pure ()

def processOutputs (seedNode : Option Hash160) : TxM Unit := do
  runPass env tx inputs offset seedNode 0
  runPass env tx inputs offset seedNode 1
  runPass env tx inputs offset seedNode 2
  runPass env tx inputs offset seedNode 3
  compareAssets env inputs

def processEntities (accept : Bool) : TxM Unit := do
  acceptAssetGenesis env tx inputs offset accept
  let state ← get
  match state.newEntityOutput with
  | none => pure ()
  | some output => acceptNewEntity env tx inputs offset accept output

def checkPointed (chain : Chain) : TxState where
  permissions := chain.permissions.setCheckPoint
  assets := chain.assets
  amountsOut := []
  canGrantAdminMine := inputs.canGrantAdminMine
  hadAdminPermission := []
  allowedAdmins := []
  allowedActivators := []
  newEntityOutput := none
  newEntityType := MC_ENT_TYPE_NONE
  detailsScript := []
  seedNodeInvolved := false
  fullReplayCheckRequired := false
  adminMinerGrant := false

def MC_PPL_REPLAY : BitVec 32 := 0x00000001
def MC_PPL_ADMINMINERGRANT : BitVec 32 := 0x00000002

/-- What `AcceptMultiChainTransaction` leaves and returns: no reason when it
accepts, and the replay flags when it sets them. -/
structure Outcome where
  chain : Chain
  reason : Option String
  replay : Option (BitVec 32)

/-- The end of `AcceptMultiChainTransaction`. -/
def conclude (chain : Chain) (accept : Bool) (state : TxState) (reason : Option String) :
    Outcome where
  chain :=
    { permissions :=
        if ¬ accept ∨ reason.isSome then state.permissions.rollBackToCheckPoint
        else state.permissions
      assets := state.assets
      seedNode := chain.seedNode.filter fun address =>
        ¬ (accept ∧ state.seedNodeInvolved)
          ∨ state.permissions.canConnect env.params nullEntity address ≠ 0 }
  reason := reason
  replay := some
    ((if state.fullReplayCheckRequired then MC_PPL_REPLAY else 0)
      ||| if state.adminMinerGrant then MC_PPL_ADMINMINERGRANT else 0)

/-- What happens behind the checkpoint. -/
def processTransaction (seedNode : Option Hash160) (accept : Bool) : TxM Unit := do
  processOutputs env tx inputs offset seedNode
  processEntities env tx inputs offset accept

def acceptMultiChainTransaction (chain : Chain) (accept : Bool) : Outcome :=
  if ¬ env.params.isProtocolMultichain then ⟨chain, none, none⟩
  else
    match scanInputs env chain.assets chain.permissions tx with
    | .error reason => ⟨chain, some reason, none⟩
    | .ok inputs =>
      let result := processTransaction env tx inputs offset chain.seedNode accept
        (checkPointed inputs chain)
      conclude env chain accept (Failing.finalState result) (Failing.failure result)

end Amberchain.Transaction

/-!
# Accepted transactions

What a transaction that is accepted went through: its inputs were scanned, and no check on
the way rejected it.
-/

namespace Amberchain.Transaction

open Entity Permission

variable {env : TxEnv} {tx : Tx} {inputs : Inputs} {offset : ℤ} {seedNode : Option Hash160}
  {state next : TxState}

theorem onlyIf_eq_ok {condition : Bool} {action : TxM Unit} :
    onlyIf condition action state = .ok () next
      ↔ condition = true ∧ action state = .ok () next ∨ condition = false ∧ next = state := by
  unfold onlyIf
  cases condition with
  | true => simp
  | false =>
    constructor
    · intro h
      cases h
      exact .inr ⟨rfl, rfl⟩
    rintro (⟨h, -⟩ | ⟨-, rfl⟩)
    · cases h
    rfl

theorem rejectIf_eq_ok {condition : Bool} {reason : String} :
    rejectIf condition reason state = .ok () next ↔ condition = false ∧ next = state := by
  unfold rejectIf
  rw [onlyIf_eq_ok]
  constructor
  · rintro (⟨-, h⟩ | h)
    · cases h
    · exact h
  exact .inr

theorem forM_eq_ok {ι : Type} {items : List ι} {body : ι → TxM Unit}
    (hloop : items.forM body state = .ok () next) {item : ι} (hmem : item ∈ items) :
    ∃ before after, body item before = .ok () after := by
  induction items generalizing state with
  | nil => cases hmem
  | cons head tail ih =>
    obtain ⟨⟨⟩, middle, hhead, htail⟩ := Failing.bind_eq_ok.mp hloop
    rcases List.mem_cons.mp hmem with rfl | hmem
    · exact ⟨state, middle, hhead⟩
    exact ih htail hmem

variable {assets : AssetDB} {store : Store}

theorem spendingInput_eq_ok {found : Inputs} {input : TxIn}
    (hround : spendingInput env assets tx inputs input = .ok found) :
    (env.params.fixedIn10007 = true → Script.isPushOnly input.scriptSig = true)
      ∧ ∃ info refused, inputInfo env (env.spentScript input.prevout) input.scriptSig
          = .ok (info, refused) ∧ found.inputs = inputs.inputs ++ [info]
        ∧ found.scriptHashAllFound = (inputs.scriptHashAllFound || decide (info.hashType = .all))
        ∧ found.rejectIfOpDropOpReturn = (inputs.rejectIfOpDropOpReturn || refused) := by
  unfold spendingInput at hround
  split at hround
  · cases hround
  next hpush =>
    obtain ⟨⟨info, refused⟩, hinfo, hround⟩ := Folding.bind_eq_ok.mp hround
    dsimp only at hround
    split at hround
    · cases hround
    obtain ⟨amounts, -, hend⟩ := Folding.bind_eq_ok.mp hround
    cases hend
    refine ⟨fun hfixed => ?_, info, refused, hinfo, rfl, rfl, rfl⟩
    by_contra hother
    exact hpush ⟨hfixed, hother⟩

structure ScannedInput (env : TxEnv) (inputs : Inputs) (input : TxIn) (info : InputInfo) : Prop where
  pushOnly : env.params.fixedIn10007 = true → Script.isPushOnly input.scriptSig = true
  found : ∃ refused, inputInfo env (env.spentScript input.prevout) input.scriptSig
      = .ok (info, refused)
    ∧ (inputs.rejectIfOpDropOpReturn = false → refused = false)

theorem spendingInputs_eq_ok {rest : List TxIn} {found : Inputs}
    (hloop : rest.foldlM (spendingInput env assets tx) inputs = .ok found) :
    ∃ infos, found.inputs = inputs.inputs ++ infos
      ∧ List.Forall₂ (ScannedInput env found) rest infos
      ∧ (found.rejectIfOpDropOpReturn = false → inputs.rejectIfOpDropOpReturn = false)
      ∧ (found.scriptHashAllFound = true → inputs.scriptHashAllFound = true
        ∨ ∃ info ∈ infos, info.hashType = .all) := by
  induction rest generalizing inputs with
  | nil =>
    cases hloop
    exact ⟨[], (List.append_nil _).symm, .nil, id, .inl⟩
  | cons input rest ih =>
    obtain ⟨next, hround, hloop⟩ := Folding.foldlM_cons_eq_ok.mp hloop
    obtain ⟨hpush, info, refused, hinfo, hinputs, hall, hrefused⟩ := spendingInput_eq_ok hround
    obtain ⟨infos, happend, hscanned, hreject, hfound⟩ := ih hloop
    have hkept (hfalse : next.rejectIfOpDropOpReturn = false) :
        inputs.rejectIfOpDropOpReturn = false ∧ refused = false := by
      rwa [hrefused, Bool.or_eq_false_iff] at hfalse
    refine ⟨info :: infos, by rw [happend, hinputs, List.append_assoc]; rfl,
      .cons ⟨hpush, refused, hinfo, fun h => (hkept (hreject h)).2⟩ hscanned,
      fun h => (hkept (hreject h)).1, fun h => ?_⟩
    rcases hfound h with hnext | ⟨other, hmem, hother⟩
    · rw [hall, Bool.or_eq_true, decide_eq_true_eq] at hnext
      exact hnext.imp_right fun htype => ⟨info, (.head _), htype⟩
    exact .inr ⟨other, List.mem_cons_of_mem _ hmem, hother⟩

structure SpendingInputs (env : TxEnv) (tx : Tx) (inputs : Inputs) : Prop where
  length : inputs.inputs.length = tx.vin.length
  scanned : ∀ i (hi : i < tx.vin.length) (hi' : i < inputs.inputs.length),
    ScannedInput env inputs tx.vin[i] inputs.inputs[i]
  all : inputs.scriptHashAllFound = true → ∃ i < tx.vin.length, inputs.hashType i = .all

theorem scanInputs_spending (hcoinbase : tx.isCoinBase = false)
    (hscan : scanInputs env assets store tx = .ok inputs) : SpendingInputs env tx inputs := by
  unfold scanInputs at hscan
  rw [if_neg (by rw [hcoinbase]; exact Bool.false_ne_true)] at hscan
  obtain ⟨infos, happend, hscanned, -, hfound⟩ := spendingInputs_eq_ok hscan
  have hinfos : inputs.inputs = infos := happend
  subst hinfos
  refine ⟨hscanned.length_eq.symm, fun i hi hi' => ?_, fun hall => ?_⟩
  · exact (List.forall₂_iff_get.mp hscanned).2 i hi hi'
  obtain ⟨info, hmem, htype⟩ := (hfound hall).resolve_left Bool.false_ne_true
  obtain ⟨i, hi, rfl⟩ := List.mem_iff_getElem.mp hmem
  refine ⟨i, hscanned.length_eq ▸ hi, ?_⟩
  unfold Inputs.hashType
  rwa [List.getD_eq_getElem _ _ hi]

/-- An accepted transaction has inputs, and all passes and the entities succeed. -/
theorem accepted_run {chain : Chain} {accept : Bool}
    (hmultichain : env.params.isProtocolMultichain = true)
    (haccept : (acceptMultiChainTransaction env tx offset chain accept).reason = none) :
    ∃ inputs final, scanInputs env chain.assets chain.permissions tx = .ok inputs
      ∧ processTransaction env tx inputs offset chain.seedNode accept (checkPointed inputs chain)
        = .ok () final := by
  unfold acceptMultiChainTransaction at haccept
  rw [if_neg (not_not.mpr hmultichain)] at haccept
  cases hscan : scanInputs env chain.assets chain.permissions tx with
  | error reason => rw [hscan] at haccept; cases haccept
  | ok inputs =>
    rw [hscan] at haccept
    dsimp only [conclude] at haccept
    cases hrun : processTransaction env tx inputs offset chain.seedNode accept
        (checkPointed inputs chain) with
    | ok value final => exact ⟨inputs, final, rfl, hrun⟩
    | error err final => rw [hrun] at haccept; cases haccept

theorem runPass_output {pass : ℕ} (hpass : runPass env tx inputs offset seedNode pass state = .ok () next)
    {j : ℕ} (hj : j < tx.vout.length) :
    ∃ before after, processOutput env tx inputs offset seedNode pass j tx.vout[j] before
      = .ok () after := by
  have hmem : (tx.vout[j], j) ∈ tx.vout.zipIdx := by
    simp [List.mem_zipIdx_iff_getElem?, hj]
  exact forM_eq_ok hpass hmem

theorem accepted_metadata {accept : Bool}
    (hrun : processTransaction env tx inputs offset seedNode accept state = .ok () next)
    {j : ℕ} (hj : j < tx.vout.length)
    (hreturn : (McScript.setScript env.params tx.vout[j].scriptPubKey).isOpReturn = true) :
    ∃ before after, checkMetadata env tx inputs
      (McScript.setScript env.params tx.vout[j].scriptPubKey) j before = .ok () after := by
  obtain ⟨⟨⟩, _, hrun, -⟩ := Failing.bind_eq_ok.mp hrun
  obtain ⟨⟨⟩, _, hpass, -⟩ := Failing.bind_eq_ok.mp hrun
  obtain ⟨before, after, houtput⟩ := runPass_output hpass hj
  unfold processOutput at houtput
  rw [if_pos hreturn] at houtput
  obtain ⟨⟨⟩, middle, hcheck, -⟩ := Failing.bind_eq_ok.mp houtput
  rcases onlyIf_eq_ok.mp hcheck with ⟨-, hcheck⟩ | ⟨hfalse, -⟩
  · exact ⟨before, middle, hcheck⟩
  exact absurd hfalse (by decide)

/-- What these checks say of the inputs: some signature covers the output, and where there
are `OP_DROP` elements all inputs have a publisher. -/
theorem checkMetadata_inputs {script : McScript} {j : ℕ}
    (hcheck : checkMetadata env tx inputs script j state = .ok () next) :
    (inputs.scriptHashAllFound = true ∨ env.params.fixedIn10007 = true
        ∧ j < inputs.inputs.length ∧ inputs.hashType j = .single)
      ∧ (1 < script.numElements → inputs.rejectIfOpDropOpReturn = false) := by
  obtain ⟨⟨⟩, _, hsigned, hcheck⟩ := Failing.bind_eq_ok.mp hcheck
  obtain ⟨⟨⟩, _, hall, hcheck⟩ := Failing.bind_eq_ok.mp hcheck
  obtain ⟨⟨⟩, _, hdrop, -⟩ := Failing.bind_eq_ok.mp hcheck
  have hsigned := of_decide_eq_false (rejectIf_eq_ok.mp hsigned).1
  have hall := of_decide_eq_false (rejectIf_eq_ok.mp hall).1
  have hdrop := of_decide_eq_false (rejectIf_eq_ok.mp hdrop).1
  refine ⟨?_, fun hmany => ?_⟩
  · by_cases hfound : inputs.scriptHashAllFound = true
    · exact .inl hfound
    have hfixed : env.params.fixedIn10007 = true := by
      by_contra hold
      exact hall ⟨hfound, hold⟩
    refine .inr ⟨hfixed, ?_⟩
    by_contra hnone
    exact hsigned ⟨hfound, hfixed, hnone⟩
  exact Bool.eq_false_iff.mpr fun hreject => hdrop ⟨hmany, hreject⟩

end Amberchain.Transaction
