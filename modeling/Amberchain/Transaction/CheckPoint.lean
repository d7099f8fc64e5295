import Amberchain.Permission.RollBackBlocks
import Amberchain.Transaction.Conservation
import Amberchain.Transaction.Preserve

/-!
# The checkpoint of a transaction

There is one checkpoint slot.  A transaction that issues an asset takes a second
checkpoint, and what is rolled back after that is what came after the second one.
-/

namespace Amberchain.Transaction

open Entity Permission Failing

/-- The fields that a checkpoint stands for are the same in both stores. -/
structure SameMemPool (store other : Store) : Prop where
  memPool : other.memPool = store.memPool
  row : other.row = store.row
  adminCount : other.adminCount = store.adminCount
  minerCount : other.minerCount = store.minerCount

/-- The checkpoint of `now` is that of `start`, and `now` has as many rows or
more. -/
structure Behind (start now : Store) : Prop where
  checkPointRow : now.checkPointRow = start.row
  checkPointAdminCount : now.checkPointAdminCount = start.adminCount
  checkPointMinerCount : now.checkPointMinerCount = start.minerCount
  checkPointMemPoolSize : now.checkPointMemPoolSize = start.memPool.length
  grown : ∃ rows, now.memPool = start.memPool ++ rows
  same : now.memPool = start.memPool → SameMemPool start now

namespace Behind

variable {start now : Store}

theorem setCheckPoint (start : Store) : Behind start start.setCheckPoint where
  checkPointRow := rfl
  checkPointAdminCount := rfl
  checkPointMinerCount := rfl
  checkPointMemPoolSize := rfl
  grown := ⟨[], (List.append_nil _).symm⟩
  same := fun _ => ⟨rfl, rfl, rfl, rfl⟩

theorem append {row : LedgerRow} {next : Store} (hbehind : Behind start now)
    (happ : now.Appended row next) : Behind start next := by
  obtain ⟨_, _, _, _, _, hnext⟩ := happ.eq_update
  obtain ⟨rows, hrows⟩ := hbehind.grown
  have hmemPool : next.memPool = start.memPool ++ (rows ++ [row]) := by
    rw [happ.memPool, hrows, List.append_assoc]
  constructor
  · rw [hnext]
    exact hbehind.checkPointRow
  · rw [hnext]
    exact hbehind.checkPointAdminCount
  · rw [hnext]
    exact hbehind.checkPointMinerCount
  · rw [hnext]
    exact hbehind.checkPointMemPoolSize
  · exact ⟨rows ++ [row], hmemPool⟩
  intro hsame
  rw [hmemPool] at hsame
  simp at hsame

theorem rollBack_same (hbehind : Behind start now) :
    SameMemPool start now.rollBackToCheckPoint := by
  obtain ⟨rows, hrows⟩ := hbehind.grown
  constructor
  · rw [Store.rollBackToCheckPoint, hrows, hbehind.checkPointMemPoolSize]
    exact List.take_left
  · exact hbehind.checkPointRow
  · exact hbehind.checkPointAdminCount
  exact hbehind.checkPointMinerCount

theorem rollBackToCheckPoint (hbehind : Behind start now) :
    Behind start now.rollBackToCheckPoint where
  checkPointRow := hbehind.checkPointRow
  checkPointAdminCount := hbehind.checkPointAdminCount
  checkPointMinerCount := hbehind.checkPointMinerCount
  checkPointMemPoolSize := hbehind.checkPointMemPoolSize
  grown := ⟨[], by rw [hbehind.rollBack_same.memPool, List.append_nil]⟩
  same := fun _ => hbehind.rollBack_same

end Behind

theorem grantInvariant_behind (params : ChainParams) (start : Store) :
    GrantInvariant params (Behind start) where
  grant := fun _ grant hstore =>
    Store.setPermission_induct params grant (fun _ _ _ h happ => h.append happ) hstore
  approve := fun _ approval hstore =>
    Store.setApproval_induct params approval (fun _ _ _ h happ => h.append happ) hstore

variable {env : TxEnv} {tx : Tx} {inputs : Inputs} {offset : ℤ}

section Entities

variable {accept : Bool} {invariant : Store → Prop}

/-- The rows of a new asset come behind a checkpoint of their own. -/
theorem grantIssue_behind (plan : IssuePlan) (start : Store) :
    Triple (fun state : TxState => state.permissions = start) (grantIssue env tx offset plan accept)
      (fun _ state => Behind start state.permissions)
      (fun state => Behind start state.permissions) := by
  have hset : Triple (fun state : TxState => state.permissions = start)
      (modify fun state => { state with permissions := state.permissions.setCheckPoint } : TxM Unit)
      (fun _ state => Behind start state.permissions)
      (fun state => Behind start state.permissions) := by
    apply Triple.modify
    intro state hstate
    rw [← hstate]
    exact Behind.setCheckPoint state.permissions
  apply Triple.bind hset
  intro _
  apply Keeps.bind (applyGrants_keeps (grantInvariant_behind env.params start) _)
  intro err
  apply Keeps.bind
  · apply keeps_onlyIf
    intro _
    apply Keeps.modify
    intro state hstate
    exact hstate.rollBackToCheckPoint
  intro _
  exact keeps_rejectIf

theorem recordIssue_keeps (plan : IssuePlan) :
    KeepsStore invariant (recordIssue env tx offset plan accept) := by
  apply Keeps.bind
  · exact fun state hstate => hstate
  intro err
  apply keeps_rejectIf_then
  apply keeps_rejectIf_then
  apply Keeps.bind Keeps.get
  intro state
  exact keeps_rejectIf

theorem insertNewEntity_keeps (hgrants : GrantInvariant env.params invariant)
    (entityType : ℕ) (details : Bytes) (openers : List (Hash160 × BitVec 32))
    (assets : AssetDB) (store : Store) (hstore : invariant store) : invariant
      (insertNewEntity env tx offset entityType details openers accept assets store).2.1 := by
  rw [insertNewEntity]
  split
  · exact hstore
  split
  · exact hgrants.approve store _ hstore
  exact hstore

theorem acceptNewEntity_keeps (hgrants : GrantInvariant env.params invariant) (output : ℕ) :
    KeepsStore invariant (acceptNewEntity env tx inputs offset accept output) := by
  apply Keeps.bind
  · exact keeps_modify fun _ => rfl
  intro _
  apply Keeps.bind Keeps.get
  intro state
  apply keeps_rejectIf_then
  apply Keeps.bind (applyGrants_keeps hgrants _)
  intro granted
  apply keeps_rejectIf_then
  apply Keeps.bind
  · exact fun state hstate => insertNewEntity_keeps hgrants _ _ _ _ _ hstate
  intro inserted
  apply keeps_rejectIf_then
  apply Keeps.bind Keeps.get
  intro state
  exact keeps_rejectIf

end Entities

/-- The transaction gets as far as to the checkpoint of a new asset: it has an
issue, and an input that may make it. -/
def takesCheckPoint (env : TxEnv) (tx : Tx) (inputs : Inputs) (state : TxState) : Bool :=
  match planIssue env tx inputs state.newEntityOutput.isSome state.permissions state.assets with
  | .ok (some plan) => plan.newIssue && !plan.issuers.isEmpty
  | _ => false

def rollBackTarget (env : TxEnv) (tx : Tx) (inputs : Inputs) (start : Store)
    (state : TxState) : Store :=
  if takesCheckPoint env tx inputs state then state.permissions else start

variable {state : TxState}

section Entities

variable {accept : Bool} {start : Store}

theorem applyIssue_behind {plan : IssuePlan}
    (hplan : planIssue env tx inputs state.newEntityOutput.isSome state.permissions state.assets
      = .ok (some plan)) (hbehind : Behind start state.permissions) :
    Triple (fun other : TxState => other = state) (applyIssue env tx offset plan accept)
      (fun _ other => Behind (rollBackTarget env tx inputs start state) other.permissions)
      (fun other => Behind (rollBackTarget env tx inputs start state) other.permissions) := by
  have htakes : takesCheckPoint env tx inputs state
      = (plan.newIssue && !plan.issuers.isEmpty) := by
    rw [takesCheckPoint, hplan]
  have hreplay : Triple (fun other : TxState => other = state)
      (modify fun other => { other with fullReplayCheckRequired := true } : TxM Unit)
      (fun _ other => other.permissions = state.permissions)
      (fun other => Behind (rollBackTarget env tx inputs start state) other.permissions) := by
    apply Triple.modify
    intro other hother
    rw [hother]
  apply Triple.bind hreplay
  intro _
  cases hissuers : plan.issuers.isEmpty with
  | true =>
    -- nobody may issue, so nothing happens to the permissions
    have htarget : rollBackTarget env tx inputs start state = start := by
      rw [rollBackTarget, htakes, hissuers]
      simp
    have hreject : Triple (fun other : TxState => other.permissions = state.permissions)
        (rejectIf true "Inputs don't belong to valid issuer") (fun _ _ => False)
        (fun other => Behind start other.permissions) := by
      apply Triple.throw
      intro other hother
      rwa [hother]
    rw [htarget]
    exact Triple.bind hreject fun _ _ hfalse => hfalse.elim
  | false =>
    have hpass : Triple (fun other : TxState => other.permissions = state.permissions)
        (rejectIf false "Inputs don't belong to valid issuer")
        (fun _ other => other.permissions = state.permissions)
        (fun other => Behind (rollBackTarget env tx inputs start state) other.permissions) :=
      Triple.pure fun _ hother => hother
    apply Triple.bind hpass
    intro _
    cases hnew : plan.newIssue with
    | true =>
      have htarget : rollBackTarget env tx inputs start state = state.permissions := by
        rw [rollBackTarget, htakes, hissuers, hnew]
        simp
      rw [htarget]
      exact Triple.bind (grantIssue_behind plan state.permissions) fun _ =>
        recordIssue_keeps plan
    | false =>
      have htarget : rollBackTarget env tx inputs start state = start := by
        rw [rollBackTarget, htakes, hnew]
        simp
      have hskip : Triple (fun other : TxState => other.permissions = state.permissions)
          (onlyIf false (grantIssue env tx offset plan accept))
          (fun _ other => Behind start other.permissions)
          (fun other => Behind start other.permissions) := by
        apply Triple.pure
        intro other hother
        rwa [hother]
      rw [htarget]
      exact Triple.bind hskip fun _ => recordIssue_keeps plan

theorem acceptAssetGenesis_behind (hbehind : Behind start state.permissions) :
    Triple (fun other : TxState => other = state) (acceptAssetGenesis env tx inputs offset accept)
      (fun _ other => Behind (rollBackTarget env tx inputs start state) other.permissions)
      (fun other => Behind (rollBackTarget env tx inputs start state) other.permissions) := by
  have hget : Triple (fun other : TxState => other = state) (get : TxM TxState)
      (fun value other => value = state ∧ other = state)
      (fun other => Behind (rollBackTarget env tx inputs start state) other.permissions) :=
    Triple.get fun _ hother => ⟨hother, hother⟩
  have hstart (hnone : takesCheckPoint env tx inputs state = false) :
      rollBackTarget env tx inputs start state = start := by
    rw [rollBackTarget, hnone]
    simp
  apply Triple.bind hget
  rintro value other ⟨rfl, rfl⟩
  cases hplan : planIssue env tx inputs other.newEntityOutput.isSome other.permissions
      other.assets with
  | error reason =>
    have htarget := hstart (by rw [takesCheckPoint, hplan])
    rw [htarget]
    exact hbehind
  | ok found =>
    cases found with
    | none =>
      have htarget := hstart (by rw [takesCheckPoint, hplan])
      rw [htarget]
      exact hbehind
    | some plan => exact applyIssue_behind hplan hbehind other rfl

theorem processEntities_behind (hbehind : Behind start state.permissions) :
    Behind (rollBackTarget env tx inputs start state)
      (finalState (processEntities env tx inputs offset accept state)).permissions := by
  have hprogram : Triple (fun other : TxState => other = state)
      (processEntities env tx inputs offset accept)
      (fun _ other => Behind (rollBackTarget env tx inputs start state) other.permissions)
      (fun other => Behind (rollBackTarget env tx inputs start state) other.permissions) := by
    apply Triple.bind (acceptAssetGenesis_behind hbehind)
    intro _
    apply Keeps.bind Keeps.get
    intro other
    split
    · exact Keeps.pure ()
    · exact acceptNewEntity_keeps (grantInvariant_behind env.params _) _
  exact hprogram.finalState rfl

end Entities

def secondCheckPoint (env : TxEnv) (tx : Tx) (offset : ℤ) (chain : Chain) : Option Store :=
  if ¬ env.params.isProtocolMultichain then none
  else
    match scanInputs env chain.assets chain.permissions tx with
    | .error _ => none
    | .ok inputs =>
      match processOutputs env tx inputs offset chain.seedNode (checkPointed inputs chain) with
      | .ok _ state =>
        if takesCheckPoint env tx inputs state then some state.permissions else none
      | .error _ _ => none

theorem SameMemPool.refl (store : Store) : SameMemPool store store :=
  ⟨rfl, rfl, rfl, rfl⟩

theorem SameMemPool.trans {store other third : Store} (hfirst : SameMemPool store other)
    (hsecond : SameMemPool other third) : SameMemPool store third where
  memPool := hsecond.memPool.trans hfirst.memPool
  row := hsecond.row.trans hfirst.row
  adminCount := hsecond.adminCount.trans hfirst.adminCount
  minerCount := hsecond.minerCount.trans hfirst.minerCount

theorem Behind.restores_iff {start target final : Store} (hbehind : Behind start target)
    (hsame : SameMemPool target final) :
    SameMemPool start final ↔ target.memPool = start.memPool := by
  constructor
  · intro hfinal
    rw [← hsame.memPool, hfinal.memPool]
  intro hmemPool
  exact (hbehind.same hmemPool).trans hsame

theorem conclude_rollBack {chain : Chain} {accept : Bool}
    {reason : Option String} (hreject : accept = false ∨ reason.isSome = true) :
    (conclude env chain accept state reason).chain.permissions
      = state.permissions.rollBackToCheckPoint := by
  have hcondition : ¬ accept = true ∨ reason.isSome = true := by
    cases hreject with
    | inl haccept =>
      left
      rw [haccept]
      exact Bool.false_ne_true
    | inr hreason => exact .inr hreason
  exact if_pos hcondition

/-- A transaction behind its checkpoint, when all outputs were processed. -/
theorem processed_restores_iff {inputs : Inputs} {chain : Chain} {accept : Bool}
    (hbehind : Behind chain.permissions state.permissions) {reason : Option String}
    (hreject : accept = false ∨ reason.isSome = true) : SameMemPool chain.permissions
        (conclude env chain accept
          (finalState (processEntities env tx inputs offset accept state)) reason).chain.permissions
      ↔ ∀ store, (if takesCheckPoint env tx inputs state then some state.permissions else none)
          = some store → store.memPool = chain.permissions.memPool := by
  have hfinal : Behind (rollBackTarget env tx inputs chain.permissions state)
      (finalState (processEntities env tx inputs offset accept state)).permissions :=
    processEntities_behind hbehind
  rw [conclude_rollBack hreject]
  have hsame := hfinal.rollBack_same
  rw [rollBackTarget] at hsame
  cases htakes : takesCheckPoint env tx inputs state with
  | true =>
    rw [htakes] at hsame
    rw [hbehind.restores_iff hsame]
    constructor
    · intro hmemPool store hstore
      cases hstore
      exact hmemPool
    intro hall
    exact hall state.permissions rfl
  | false =>
    rw [htakes] at hsame
    constructor
    · intro _ store hstore
      cases hstore
    exact fun _ => hsame

theorem checkPointed_behind (inputs : Inputs) (chain : Chain) :
    Behind chain.permissions (checkPointed inputs chain).permissions :=
  Behind.setCheckPoint chain.permissions

theorem processed_behind (env : TxEnv) (tx : Tx) (inputs : Inputs) (offset : ℤ) (chain : Chain) :
    Behind chain.permissions (finalState (processOutputs env tx inputs offset chain.seedNode
        (checkPointed inputs chain))).permissions := by
  have hkeeps : KeepsStore (Behind chain.permissions)
      (processOutputs env tx inputs offset chain.seedNode) :=
    processOutputs_keeps (grantInvariant_behind env.params chain.permissions).outputs
  exact hkeeps.finalState (checkPointed_behind inputs chain)

/-- A transaction that is rejected, or only checked, leaves the mempool rows, the
row counter and the counts as they were exactly if the rows of its own grants had
not been added when its second checkpoint was taken. -/
theorem rejected_restores_iff (env : TxEnv) (tx : Tx) (offset : ℤ) (accept : Bool) (chain : Chain)
    (hreject : accept = false
      ∨ (acceptMultiChainTransaction env tx offset chain accept).reason.isSome = true) :
    SameMemPool chain.permissions
        (acceptMultiChainTransaction env tx offset chain accept).chain.permissions
      ↔ ∀ store, secondCheckPoint env tx offset chain = some store →
          store.memPool = chain.permissions.memPool := by
  rw [acceptMultiChainTransaction] at hreject ⊢
  rw [secondCheckPoint]
  split
  · constructor
    · intro _ store hstore
      simp at hstore
    · exact fun _ => SameMemPool.refl _
  next hprotocol =>
    rw [if_neg hprotocol] at hreject
    cases hscan : scanInputs env chain.assets chain.permissions tx with
    | error reason =>
      constructor
      · intro _ store hstore
        cases hstore
      · exact fun _ => SameMemPool.refl _
    | ok inputs =>
      rw [hscan] at hreject
      dsimp only at hreject ⊢
      have hbehind := processed_behind env tx inputs offset chain
      rw [processTransaction, bind_apply] at hreject ⊢
      cases hprocess : processOutputs env tx inputs offset chain.seedNode
          (checkPointed inputs chain) with
      | error reason state =>
        rw [hprocess] at hbehind
        constructor
        · intro _ store hstore
          cases hstore
        intro _
        have hrollBack : (conclude env chain accept state (some reason)).chain.permissions
            = state.permissions.rollBackToCheckPoint := conclude_rollBack (.inr rfl)
        have hsame := Behind.rollBack_same hbehind
        rw [finalState, ← hrollBack] at hsame
        exact hsame
      | ok value state =>
        rw [hprocess] at hbehind hreject
        exact processed_restores_iff hbehind hreject

def keyHashScript (address : Hash160) : Bytes :=
  [OP_DUP, OP_HASH160, 20] ++ putLE address.toNat 20 ++ [OP_EQUALVERIFY, OP_CHECKSIG]

/-- The element of a grant for all blocks. -/
def permissionScript (type : PermType) : Bytes :=
  20 :: MC_DCT_SCRIPT_MULTICHAIN_IDENTIFIER
    ++ MC_DCT_SCRIPT_MULTICHAIN_PERMISSIONS_PREFIX :: putLE type.toNat 4 ++ putLE 0 4
    ++ putLE (2 ^ 32 - 1) 4 ++ putLE 1 4 ++ [OP_DROP]

def minedOnceEnv : TxEnv where
  params := .defaults
  script := ⟨fun _ => 0, fun _ => ⟨false, .nonstandard, []⟩⟩
  spentScript := fun _ => keyHashScript Store.firstMiner
  time := 1
  requireStandard := false
  isDust := fun _ => false

def minedOnceChain : Chain where
  permissions := Store.minedOnce
  assets := .initialized .empty .empty
  seedNode := none

def signedInput : TxIn where
  prevout := ⟨1, 0⟩
  scriptSig := [1, 1, 1, 2]

/-- The first miner lets an address connect. -/
def grantTx : Tx where
  hash := issuedTxid
  vin := [signedInput]
  vout := [⟨0, keyHashScript 0x4e ++ permissionScript MC_PTP_CONNECT⟩]

/-- The first miner lets an address connect, and issues an asset to it. -/
def grantIssueTx : Tx where
  hash := issuedTxid
  vin := [signedInput]
  vout := [⟨0, keyHashScript 0x4e ++ permissionScript MC_PTP_CONNECT⟩,
    ⟨0, keyHashScript 0x4e ++ genesisScript 5⟩]

theorem minedOnce_restores_iff : SameMemPool minedOnceChain.permissions
        (acceptMultiChainTransaction minedOnceEnv grantTx (-1) minedOnceChain
          false).chain.permissions
      ↔ ∀ store, secondCheckPoint minedOnceEnv grantTx (-1) minedOnceChain = some store →
          store.memPool = minedOnceChain.permissions.memPool :=
  rejected_restores_iff minedOnceEnv grantTx (-1) false minedOnceChain (.inl rfl)

/-- A dry run of a grant and an issue leaves the row of the grant in the mempool. -/
theorem dryRun_keeps_grant :
    ¬ ∀ (env : TxEnv) (tx : Tx) (offset : ℤ) (accept : Bool) (chain : Chain),
      Store.Reachable env.params chain.permissions → accept = false
        ∨ (acceptMultiChainTransaction env tx offset chain accept).reason.isSome = true →
      SameMemPool chain.permissions
        (acceptMultiChainTransaction env tx offset chain accept).chain.permissions := by
  intro hrestores
  have hsame := hrestores minedOnceEnv grantIssueTx (-1) false minedOnceChain
    Store.minedOnce_reachable (.inl rfl)
  have hmemPool := hsame.memPool
  revert hmemPool
  decide +kernel

end Amberchain.Transaction
