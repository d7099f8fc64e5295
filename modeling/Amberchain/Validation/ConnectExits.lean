import Amberchain.Validation.ConnectBlock

/-!
# The exits of `ConnectBlock`

A check that returns false fills the validation state before.  Two exits do not: that of
`CheckBlock` for a banned transaction, and that for a coinbase which is not accepted.
-/

namespace Amberchain.Validation

open Failing Interpreter Storage Transaction

section Rules

variable {α β : Type} {plain plain' : World → Prop}

/-- How a check ends that starts with a valid state: it is valid still, or an invalid one is
left by a check that is refused.  Exactly when `plain` says, the check is refused and leaves a
valid state. -/
def EndsFilled (plain : Prop) : EStateM.Result Refusal World α → Prop
  | .ok _ next => next.state.mode = .valid ∧ ¬plain
  | .error .refused next => plain ∧ next.state.mode = .valid ∨ ¬plain ∧ next.state.mode = .invalid
  | .error .thrown _ => ¬plain

/-- The check fills the state whenever it is refused, unless it starts as `plain` says. -/
def FillsUnless (plain : World → Prop) (program : BlockM α) : Prop :=
  ∀ world, world.state.mode = .valid → EndsFilled (plain world) (program world)

def Fills (program : BlockM α) : Prop :=
  FillsUnless (fun _ => False) program

theorem EndsFilled.congr {plain plain' : Prop} {result : EStateM.Result Refusal World α}
    (hends : EndsFilled plain result) (hiff : plain ↔ plain') : EndsFilled plain' result := by
  rwa [← propext hiff]

theorem FillsUnless.congr {program : BlockM α} (hfills : FillsUnless plain program)
    (hiff : ∀ world, plain world ↔ plain' world) : FillsUnless plain' program := by
  intro world hvalid
  exact (hfills world hvalid).congr (hiff world)

variable {second : α → BlockM β}

/-- A check is refused plainly when its first part is, or its second part is where the first
one ends. -/
theorem FillsUnless.bind {first : BlockM α} {later : α → World → Prop}
    (hfirst : FillsUnless plain first) (hsecond : ∀ value, FillsUnless (later value) (second value)) :
    FillsUnless (fun world => plain world ∨
      ∃ value next, first world = .ok value next ∧ later value next) (first >>= second) := by
  intro world hvalid
  have hends := hfirst world hvalid
  rw [bind_apply]
  dsimp only
  generalize hrun : first world = result at hends ⊢
  cases result with
  | ok value next =>
    apply (hsecond value next hends.1).congr
    constructor
    · intro hlater
      exact .inr ⟨value, next, rfl, hlater⟩
    rintro (hplain | ⟨value', next', heq, hlater⟩)
    · exact absurd hplain hends.2
    cases heq
    exact hlater
  | error refusal next =>
    have hiff : plain world ↔ plain world ∨ ∃ value next',
        (EStateM.Result.error refusal next : EStateM.Result Refusal World α) = .ok value next'
          ∧ later value next' :=
      ⟨.inl, fun hor => hor.resolve_right (by rintro ⟨_, _, heq, -⟩; cases heq)⟩
    cases refusal with
    | refused => exact @EndsFilled.congr _ _ _ (.error .refused next) hends hiff
    | thrown => exact @EndsFilled.congr _ _ _ (.error .thrown next) hends hiff

namespace Fills

theorem bind {first : BlockM α} (hfirst : Fills first)
    (hsecond : ∀ value, Fills (second value)) : Fills (first >>= second) := by
  apply (FillsUnless.bind hfirst hsecond).congr
  intro world
  simp

theorem andThen {first : BlockM α} {later : α → World → Prop}
    (hfirst : Fills first) (hsecond : ∀ value, FillsUnless (later value) (second value)) :
    FillsUnless (fun world => ∃ value next, first world = .ok value next ∧ later value next)
      (first >>= second) := by
  apply (FillsUnless.bind hfirst hsecond).congr
  intro world
  exact ⟨fun hor => hor.resolve_left id, .inr⟩

theorem pure (value : α) : Fills (pure value : BlockM α) :=
  fun _ hvalid => ⟨hvalid, id⟩

theorem thrown : Fills (throw .thrown : BlockM α) :=
  fun _ _ => id

theorem get : Fills (get : BlockM World) :=
  fun _ hvalid => ⟨hvalid, id⟩

theorem modify {change : World → World} (hstate : ∀ world, (change world).state = world.state) :
    Fills (modify change : BlockM Unit) := by
  intro world hvalid
  have hmode : (change world).state.mode = .valid := by rw [hstate, hvalid]
  exact ⟨hmode, id⟩

theorem get_bind {rest : World → BlockM α}
    (hrest : ∀ world, world.state.mode = .valid → Fills (rest world)) :
    Fills (MonadState.get >>= rest) :=
  fun world hvalid => hrest world hvalid world hvalid

theorem set {world : World} (hvalid : world.state.mode = .valid) :
    Fills (set world : BlockM Unit) :=
  fun _ _ => ⟨hvalid, id⟩

theorem set_bind {next : World} {rest : Unit → BlockM α} (hvalid : next.state.mode = .valid)
    (hrest : Fills (rest ())) : Fills (MonadStateOf.set next >>= rest) :=
  fun _ _ => hrest next hvalid

theorem refuse {change : ValidationState → ValidationState}
    (hchange : ∀ state, state.mode = .valid → (change state).mode = .invalid) :
    Fills (refuse change : BlockM α) :=
  fun world hvalid => .inr ⟨id, hchange world.state hvalid⟩

theorem ite {condition : Prop} [Decidable condition] {yes no : BlockM α}
    (hyes : condition → Fills yes) (hno : ¬condition → Fills no) :
    Fills (if condition then yes else no) := by
  split
  · exact hyes ‹_›
  exact hno ‹_›

theorem assertThat (condition : Bool) : Fills (assertThat condition) :=
  ite (fun _ => pure ()) fun _ => thrown

theorem forM {ι : Type} {items : List ι} {body : ι → BlockM Unit}
    (hbody : ∀ item, Fills (body item)) : Fills (items.forM body) := by
  induction items with
  | nil => exact pure ()
  | cons item items ih => exact (hbody item).bind fun _ => ih

theorem foldlM {ι : Type} {items : List ι} {step : α → ι → BlockM α}
    (hstep : ∀ value item, Fills (step value item)) : ∀ start, Fills (items.foldlM step start) := by
  induction items with
  | nil => exact pure
  | cons item items ih =>
    intro start
    exact (hstep start item).bind ih

end Fills

end Rules

section Exits

variable {α : Type} (env : BlockEnv)

theorem doS_mode {state : ValidationState} (hvalid : state.mode = .valid) (level code : ℕ)
    (reason : String) (corruption : Bool) :
    (state.doS level code reason corruption).mode = .invalid := by
  rw [ValidationState.doS, if_neg (by rw [hvalid]; decide)]

theorem fills_doS (level code : ℕ) (reason : String) (corruption : Bool) :
    Fills (refuse fun state => state.doS level code reason corruption : BlockM α) :=
  Fills.refuse fun _ hvalid => doS_mode hvalid level code reason corruption

theorem fills_refuseIf {condition : Bool} {level code : ℕ} {reason : String}
    {corruption : Bool} : Fills (refuseIf condition level code reason corruption) :=
  Fills.ite (fun _ => fills_doS level code reason corruption) fun _ => Fills.pure ()

theorem checkValues_fills : ∀ (outs : List TxOut) (total : ℤ), Fills (checkValues env outs total)
  | [], _ => Fills.pure ()
  | out :: outs, total =>
    fills_refuseIf.bind fun _ => fills_refuseIf.bind fun _ =>
      fills_refuseIf.bind fun _ => checkValues_fills outs (total + out.value)

theorem checkTransaction_fills (tx : SignedTx) : Fills (checkTransaction env tx) := by
  refine fills_refuseIf.bind fun _ => ?_
  refine fills_refuseIf.bind fun _ => ?_
  refine fills_refuseIf.bind fun _ => ?_
  apply (checkValues_fills env tx.vout 0).bind
  intro _
  refine fills_refuseIf.bind fun _ => ?_
  exact Fills.ite (fun _ => fills_refuseIf) fun _ => fills_refuseIf

theorem checkShape_fills (block : Block) (checkPOW checkRoot : Bool) :
    Fills (checkShape env block checkPOW checkRoot) := by
  have hheader : Fills (checkBlockHeader env block checkPOW) :=
    fills_refuseIf.bind fun _ => fills_refuseIf
  have hroot : Fills (if checkRoot then checkMerkleRoot env block else pure ()) :=
    Fills.ite (fun _ => fills_refuseIf.bind fun _ => fills_refuseIf)
      fun _ => Fills.pure ()
  apply hheader.bind
  intro _
  apply hroot.bind
  intro _
  refine fills_refuseIf.bind fun _ => ?_
  refine fills_refuseIf.bind fun _ => ?_
  refine fills_refuseIf.bind fun _ => ?_
  exact Fills.forM (checkTransaction_fills env)

theorem checkMiner_fills (block : Block) (index : BlockIndex) (justCheck : Bool) :
    Fills (checkMiner env block index justCheck) := by
  apply Fills.ite (fun _ => Fills.pure _)
  intro _
  apply Fills.get_bind
  intro world hvalid
  apply Fills.set_bind
  · exact hvalid
  split
  · exact fills_doS _ _ _ _
  exact Fills.pure _

theorem fillInputsError_mode {err : InputsError} (herr : err ≠ .valueOutOutOfRange)
    {state : ValidationState} (hvalid : state.mode = .valid) :
    (fillInputsError err state).mode = .invalid := by
  cases err with
  | valueOutOutOfRange => exact absurd rfl herr
  | _ => exact doS_mode hvalid _ _ _ _

theorem checkInputsM_fills (index : BlockIndex) (tx : SignedTx) (scriptChecks : Bool)
    (flags : VerifyFlags) : Fills (checkInputsM env index tx scriptChecks flags) := by
  apply Fills.get_bind
  intro world _
  split
  · exact Fills.pure _
  · exact Fills.thrown
  rename_i err herr _
  exact Fills.refuse fun _ hvalid => fillInputsError_mode herr hvalid

theorem valueOut_fills (tx : SignedTx) : Fills (valueOut env tx) := by
  unfold valueOut
  split
  · exact Fills.pure _
  exact Fills.thrown

theorem updateCoins_fills (index : BlockIndex) (tx : SignedTx) :
    Fills (updateCoins env index tx) := by
  apply Fills.get_bind
  intro world hvalid
  split
  · exact Fills.thrown
  exact Fills.set hvalid

theorem acceptTx_fills (tx : SignedTx) (offset : ℤ) (justCheck : Bool) :
    Fills (acceptTx env tx offset justCheck) := by
  apply Fills.ite (fun _ => Fills.pure ())
  intro _
  apply Fills.get_bind
  intro world hvalid
  apply Fills.set_bind
  · exact hvalid
  split
  · exact Fills.pure ()
  exact fills_doS _ _ _ _

theorem connectTx_fills (index : BlockIndex) (rules : Rules) (totals : Totals) (tx : SignedTx) :
    Fills (connectTx env index rules totals tx) := by
  have hspending : ∀ totals, Fills (checkSpending env index rules tx totals) := by
    intro totals
    apply Fills.get.bind
    intro world
    refine fills_refuseIf.bind fun _ => ?_
    refine fills_refuseIf.bind fun _ => ?_
    apply (valueOut_fills env tx).bind
    intro value
    apply (checkInputsM_fills env index tx _ _).bind
    intro queued
    apply (acceptTx_fills env tx _ _).bind
    intro _
    exact Fills.pure _
  refine fills_refuseIf.bind fun _ => ?_
  apply (Fills.ite (fun _ => Fills.pure _) fun _ => hspending _).bind
  intro checked
  apply (updateCoins_fills env index tx).bind
  intro _
  exact Fills.pure _

theorem checkOverwrites_fills (block : Block) : Fills (checkOverwrites env block) :=
  Fills.get.bind fun _ => fills_refuseIf

theorem checkCoinbaseValue_fills (block : Block) (index : BlockIndex) (totals : Totals) :
    Fills (checkCoinbaseValue env block index totals) := by
  have hsubsidy : ∀ coinbase, Fills (checkSubsidy env index totals.fees coinbase) := fun coinbase =>
    (valueOut_fills env coinbase).bind fun _ => fills_refuseIf
  refine Fills.bind ?_ fun _ => fills_refuseIf
  split
  · exact Fills.thrown
  · exact hsubsidy _

/-- Permissions and assets on files that take every commit. -/
theorem commitChain_fills (disk : Disk) (block : Block) (miner : Hash160) (genesis : Bool) :
    Fills (commitChain env disk block miner genesis) := by
  refine fills_refuseIf.bind fun _ => ?_
  apply Fills.get_bind
  intro world hvalid
  dsimp only
  split
  · exact Fills.set hvalid
  apply Fills.set_bind
  · exact hvalid
  exact fills_doS _ _ _ _

theorem setBestBlock_fills (hash : Hash256) : Fills (setBestBlock hash) :=
  Fills.modify fun _ => rfl

theorem connectGenesis_fills (disk : Disk) (block : Block) (index : BlockIndex)
    (miner : Hash160) : Fills (connectGenesis env disk block index miner) := by
  have htx : ∀ offset tx, Fills (connectGenesisTx env offset tx) := by
    intro offset tx
    apply Fills.get_bind
    intro world hvalid
    apply Fills.set_bind
    · exact hvalid
    split
    · exact Fills.pure _
    · exact fills_doS _ _ _ _
  apply (Fills.foldlM htx _).bind
  intro _
  apply (commitChain_fills env disk block miner true).bind
  intro _
  exact (setBestBlock_fills _).bind fun _ => Fills.pure _

/-- On files that take everything the end of `ConnectBlock` fills the state. -/
theorem finishBlock_fills (block : Block) (index : BlockIndex) (justCheck : Bool)
    (miner : Hash160) (totals : Totals) :
    Fills (finishBlock env Disk.sound block index justCheck miner totals) := by
  have hundo : Fills (writeUndo Disk.sound index) :=
    Fills.ite (fun _ => Fills.pure ()) fun _ => Fills.pure ()
  have hwritten : Fills (if index.undoMissing || !index.scriptsValid then
      writeUndo Disk.sound index else pure ()) :=
    Fills.ite (fun _ => hundo) fun _ => Fills.pure ()
  have hindex : Fills (writeTxIndex env Disk.sound) := by
    unfold writeTxIndex
    rw [show (env.txIndex && !Disk.sound.txIndexWritten) = false from Bool.and_false _]
    exact Fills.pure ()
  apply (checkCoinbaseValue_fills env block index totals).bind
  intro _
  apply Fills.ite (fun _ => Fills.pure ())
  intro _
  apply hwritten.bind
  intro _
  apply hindex.bind
  intro _
  apply (commitChain_fills env Disk.sound block miner false).bind
  intro _
  exact setBestBlock_fills index.hash

theorem checkBanned_fillsUnless (block : Block) :
    FillsUnless (fun _ => hasBannedTx env block = true) (checkBanned env block) := by
  intro world hvalid
  unfold checkBanned
  cases hbanned : hasBannedTx env block with
  | false => exact ⟨hvalid, Bool.false_ne_true⟩
  | true =>
    refine .inl ⟨rfl, ?_⟩
    change (if block.hash ∈ world.bannedBlocks then world
      else { world with bannedBlocks := world.bannedBlocks ++ [block.hash] }).state.mode = .valid
    split
    · exact hvalid
    exact hvalid

theorem checkBlock_fillsUnless (block : Block) (checkPOW checkRoot : Bool) :
    FillsUnless (fun world => hasBannedTx env block = true ∧
      ∃ next, checkShape env block checkPOW checkRoot world = .ok ⟨⟩ next)
      (checkBlock env block checkPOW checkRoot) := by
  have hrest := FillsUnless.bind (checkBanned_fillsUnless env block) fun _ =>
    @fills_refuseIf (env.maxBlockSigOps < (block.vtx.map env.legacySigOps).sum) 100 REJECT_INVALID
      "bad-blk-sigops" true
  apply ((checkShape_fills env block checkPOW checkRoot).andThen fun _ => hrest).congr
  intro world
  constructor
  · rintro ⟨value, next, hshape, hbanned | ⟨_, _, _, hfalse⟩⟩
    · exact ⟨hbanned, next, hshape⟩
    · exact hfalse.elim
  rintro ⟨hbanned, next, hshape⟩
  exact ⟨⟨⟩, next, hshape, .inl hbanned⟩

def coinbaseRefused (offset : ℤ) : List SignedTx → World → Bool
  | [], _ => false
  | tx :: txs, world =>
    let accepted := acceptPermissions env tx offset world
    accepted.2.isSome || coinbaseRefused offset txs { world with chain := accepted.1 }

theorem acceptCoinbase_run (tx : SignedTx) (offset : ℤ) (world : World) :
    acceptCoinbase env tx offset false world =
      if (acceptPermissions env tx offset world).2.isSome then
        .error .refused { world with chain := (acceptPermissions env tx offset world).1 }
      else .ok ⟨⟩ { world with chain := (acceptPermissions env tx offset world).1 } := by
  rw [acceptCoinbase, if_neg Bool.false_ne_true, Failing.get_bind_apply]
  cases (acceptPermissions env tx offset world).2 with
  | none => rfl
  | some reason => rfl

theorem acceptCoinbase_fillsUnless (tx : SignedTx) (offset : ℤ) :
    FillsUnless (fun world => (acceptPermissions env tx offset world).2.isSome = true)
      (acceptCoinbase env tx offset false) := by
  intro world hvalid
  dsimp only
  rw [acceptCoinbase_run]
  cases (acceptPermissions env tx offset world).2 with
  | none => exact ⟨hvalid, Bool.false_ne_true⟩
  | some reason => exact .inl ⟨rfl, hvalid⟩

theorem acceptCoinbase_eq_ok {tx : SignedTx} {offset : ℤ} {world next : World}
    (hrun : acceptCoinbase env tx offset false world = .ok ⟨⟩ next) :
    (acceptPermissions env tx offset world).2 = none
      ∧ next = { world with chain := (acceptPermissions env tx offset world).1 } := by
  rw [acceptCoinbase_run] at hrun
  cases haccepted : (acceptPermissions env tx offset world).2 with
  | none =>
    rw [haccepted] at hrun
    cases hrun
    exact ⟨rfl, rfl⟩
  | some reason =>
    rw [haccepted] at hrun
    cases hrun

theorem acceptCoinbase_of_none {tx : SignedTx} {offset : ℤ} {world : World}
    (hnone : (acceptPermissions env tx offset world).2 = none) :
    acceptCoinbase env tx offset false world
      = .ok ⟨⟩ { world with chain := (acceptPermissions env tx offset world).1 } := by
  rw [acceptCoinbase_run, hnone]
  rfl

theorem acceptCoinbases_fillsUnless (offset : ℤ) (txs : List SignedTx) :
    FillsUnless (fun world => coinbaseRefused env offset txs world = true)
      (txs.forM fun tx => acceptCoinbase env tx offset false) := by
  induction txs with
  | nil => exact fun world hvalid => ⟨hvalid, Bool.false_ne_true⟩
  | cons tx txs ih =>
    apply ((acceptCoinbase_fillsUnless env tx offset).bind fun _ => ih).congr
    intro world
    rw [show coinbaseRefused env offset (tx :: txs) world
      = ((acceptPermissions env tx offset world).2.isSome || coinbaseRefused env offset txs
        { world with chain := (acceptPermissions env tx offset world).1 }) from rfl,
      Bool.or_eq_true]
    constructor
    · rintro (hrefused | ⟨⟨⟩, next, hrun, hlater⟩)
      · exact .inl hrefused
      obtain ⟨-, heq⟩ := acceptCoinbase_eq_ok env hrun
      rw [heq] at hlater
      exact .inr hlater
    rintro (hrefused | hlater)
    · exact .inl hrefused
    cases haccepted : (acceptPermissions env tx offset world).2 with
    | some reason => exact .inl rfl
    | none =>
      exact .inr ⟨⟨⟩, _, acceptCoinbase_of_none env haccepted, hlater⟩

/-- The two ways in which `ConnectBlock` returns false and leaves the state as it was: the block
is checked once more and has a banned transaction, or its coinbase is not accepted after its
other transactions were. -/
inductive TakesPlainExit (block : Block) (index : BlockIndex) (justCheck : Bool) (world : World) :
    Prop where
  | banned {checked : World}
      (hagain : index.minerKnown = false ∨ env.bannedTxs ≠ [])
      (hbanned : hasBannedTx env block = true)
      (hchecked : checkShape env block (!justCheck) (!justCheck) world = .ok ⟨⟩ checked)
  | coinbase {miner : Hash160} {begun checked connected : World} {totals : Totals}
      (hconnects : justCheck = false) (hgenesis : block.hash ≠ env.genesisHash)
      (hbegun : beginBlock env block index justCheck world = .ok miner begun)
      (hchecked : checkOverwrites env block begun = .ok ⟨⟩ checked)
      (hconnected : block.vtx.foldlM (connectTx env index (rulesOf env block index justCheck))
        ⟨0, 0, firstOffset block, []⟩ checked = .ok totals connected)
      (hrefused : coinbaseRefused env (firstOffset block)
        (block.vtx.filter fun tx => tx.isCoinBase) connected = true)

theorem beginBlock_fillsUnless (block : Block) (index : BlockIndex) (justCheck : Bool) :
    FillsUnless (fun world => (index.minerKnown = false ∨ env.bannedTxs ≠ [])
      ∧ hasBannedTx env block = true
      ∧ ∃ next, checkShape env block (!justCheck) (!justCheck) world = .ok ⟨⟩ next)
      (beginBlock env block index justCheck) := by
  have hagain : (!index.minerKnown || !env.bannedTxs.isEmpty) = true
      ↔ index.minerKnown = false ∨ env.bannedTxs ≠ [] := by
    rw [Bool.or_eq_true, Bool.not_eq_true', Bool.not_eq_true', List.isEmpty_eq_false_iff]
  have hfirst : FillsUnless (fun world => (index.minerKnown = false ∨ env.bannedTxs ≠ [])
      ∧ hasBannedTx env block = true
      ∧ ∃ next, checkShape env block (!justCheck) (!justCheck) world = .ok ⟨⟩ next)
      (if !index.minerKnown || !env.bannedTxs.isEmpty then
        checkBlock env block (!justCheck) (!justCheck)
      else pure ()) := by
    split
    · rename_i hcondition
      apply (checkBlock_fillsUnless env block (!justCheck) (!justCheck)).congr
      intro world
      exact ⟨fun hplain => ⟨hagain.mp hcondition, hplain⟩, And.right⟩
    rename_i hcondition
    apply (Fills.pure ()).congr
    intro world
    exact ⟨False.elim, fun hplain => hcondition (hagain.mpr hplain.1)⟩
  have hclear : Fills (if justCheck then pure () else clearMemPools : BlockM Unit) :=
    Fills.ite (fun _ => Fills.pure ()) fun _ => Fills.modify fun _ => rfl
  have hrest : Fills (do
      let miner ← checkMiner env block index justCheck
      let world ← get
      assertThat (index.prevHash = world.bestBlock)
      (if justCheck then pure () else clearMemPools)
      pure miner) := by
    apply (checkMiner_fills env block index justCheck).bind
    intro miner
    apply Fills.get.bind
    intro world
    apply (Fills.assertThat _).bind
    intro _
    exact hclear.bind fun _ => Fills.pure miner
  apply (hfirst.bind fun _ => hrest).congr
  intro world
  exact ⟨fun hor => hor.resolve_right fun ⟨_, _, _, hfalse⟩ => hfalse, .inl⟩

/-- The coinbases of a block that is connected, after its transactions. -/
theorem connectTxs_fillsUnless (block : Block) (index : BlockIndex) (rules : Rules) :
    FillsUnless (fun world => rules.justCheck = false ∧ ∃ totals next,
      block.vtx.foldlM (connectTx env index rules) ⟨0, 0, firstOffset block, []⟩ world
        = .ok totals next
      ∧ coinbaseRefused env (firstOffset block) (block.vtx.filter fun tx => tx.isCoinBase) next
        = true) (connectTxs env block index rules) := by
  have hloop : Fills (block.vtx.foldlM (connectTx env index rules) ⟨0, 0, firstOffset block, []⟩) :=
    Fills.foldlM (connectTx_fills env index rules) _
  have hcoinbases : FillsUnless (fun world => rules.justCheck = false
      ∧ coinbaseRefused env (firstOffset block) (block.vtx.filter fun tx => tx.isCoinBase) world
        = true) ((block.vtx.filter fun tx => tx.isCoinBase).forM fun tx =>
      acceptCoinbase env tx (firstOffset block) rules.justCheck) := by
    cases rules.justCheck with
    | true =>
      apply (Fills.forM fun _ => Fills.pure ()).congr
      intro world
      exact ⟨False.elim, fun h => Bool.noConfusion h.1⟩
    | false =>
      apply (acceptCoinbases_fillsUnless env _ _).congr
      intro world
      exact ⟨fun h => ⟨rfl, h⟩, And.right⟩
  have hall := hloop.andThen fun totals => hcoinbases.bind fun _ => Fills.pure totals
  apply hall.congr
  intro world
  constructor
  · rintro ⟨totals, next, hrun, ⟨hjust, hrefused⟩ | ⟨_, _, _, hfalse⟩⟩
    · exact ⟨hjust, totals, next, hrun, hrefused⟩
    · exact hfalse.elim
  rintro ⟨hjust, totals, next, hrun, hrefused⟩
  exact ⟨totals, next, hrun, .inl ⟨hjust, hrefused⟩⟩

/-- `ConnectBlock` behind its beginning, for a block that is not the genesis block. -/
theorem connectRest_fillsUnless (block : Block) (index : BlockIndex) (justCheck : Bool)
    (miner : Hash160) :
    FillsUnless (fun world => ∃ next, checkOverwrites env block world = .ok ⟨⟩ next
      ∧ justCheck = false ∧ ∃ totals connected,
        block.vtx.foldlM (connectTx env index (rulesOf env block index justCheck))
          ⟨0, 0, firstOffset block, []⟩ next = .ok totals connected
        ∧ coinbaseRefused env (firstOffset block) (block.vtx.filter fun tx => tx.isCoinBase)
          connected = true) (do
      checkOverwrites env block
      let totals ← connectTxs env block index (rulesOf env block index justCheck)
      finishBlock env Disk.sound block index justCheck miner totals
      pure totals.fees) := by
  have hfinish : ∀ totals : Totals, Fills (do
      finishBlock env Disk.sound block index justCheck miner totals
      pure totals.fees) := fun totals =>
    (finishBlock_fills env block index justCheck miner totals).bind fun _ => Fills.pure _
  have htxs := (connectTxs_fillsUnless env block index
    (rulesOf env block index justCheck)).bind hfinish
  apply ((checkOverwrites_fills env block).andThen fun _ => htxs).congr
  intro world
  constructor
  · rintro ⟨⟨⟩, next, hchecked, hrefused | ⟨_, _, _, hfalse⟩⟩
    · exact ⟨next, hchecked, hrefused⟩
    · exact hfalse.elim
  rintro ⟨next, hchecked, hrefused⟩
  exact ⟨⟨⟩, next, hchecked, .inl hrefused⟩

/-- `ConnectBlock` leaves an invalid state when it returns false, unless it takes a plain exit. -/
theorem connectBlock_fillsUnless (block : Block) (index : BlockIndex) (justCheck : Bool) :
    FillsUnless (TakesPlainExit env block index justCheck)
      (connectBlock env Disk.sound block index justCheck) := by
  have hbegin := beginBlock_fillsUnless env block index justCheck
  unfold connectBlock
  by_cases hgenesis : block.hash = env.genesisHash
  · simp only [if_pos hgenesis]
    apply (hbegin.bind fun miner => connectGenesis_fills env Disk.sound block index miner).congr
    intro world
    constructor
    · rintro (⟨hagain, hbanned, next, hshape⟩ | ⟨_, _, _, hfalse⟩)
      · exact .banned hagain hbanned hshape
      · exact hfalse.elim
    intro hplain
    cases hplain with
    | banned hagain hbanned hshape => exact .inl ⟨hagain, hbanned, _, hshape⟩
    | coinbase _ hne => exact absurd hgenesis hne
  simp only [if_neg hgenesis]
  apply (hbegin.bind fun miner => connectRest_fillsUnless env block index justCheck miner).congr
  intro world
  constructor
  · rintro (⟨hagain, hbanned, next, hshape⟩ | ⟨miner, begun, hbegun, checked, hchecked, hjust,
      totals, connected, hconnected, hrefused⟩)
    · exact .banned hagain hbanned hshape
    · exact .coinbase hjust hgenesis hbegun hchecked hconnected hrefused
  intro hplain
  cases hplain with
  | banned hagain hbanned hshape => exact .inl ⟨hagain, hbanned, _, hshape⟩
  | coinbase hjust _ hbegun hchecked hconnected hrefused =>
    exact .inr ⟨_, _, hbegun, _, hchecked, hjust, _, _, hconnected, hrefused⟩

end Exits

end Amberchain.Validation
