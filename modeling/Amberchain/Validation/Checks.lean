import Amberchain.Validation.ConnectBlock

/-!
# What the checks of a block keep

Most checks only refuse: they change the validation state and, where a banned transaction is
found, the banned blocks.  The others change the chain as well.  What these changes keep is kept
by all the checks before the coins are spent.
-/

namespace Amberchain.Validation

open Failing Interpreter Permission Storage Transaction

variable {env : BlockEnv}

/-- What holds before a check, and what is left of it where the check fails: the one does not
depend on the banned blocks, and the other not on the validation state either. -/
structure SurvivesChecks (property failed : World → Prop) : Prop where
  throw : ∀ world, property world → failed world
  refuse : ∀ world state, property world → failed { world with state := state }
  bannedBlocks : ∀ world bannedBlocks, property world →
    property { world with bannedBlocks := bannedBlocks }

variable {property failed : World → Prop} {α : Type}

theorem keeps_ite {condition : Prop} [Decidable condition] {yes no : BlockM α}
    (hyes : Preserves property failed yes) (hno : Preserves property failed no) :
    Preserves property failed (if condition then yes else no) := by
  split
  · exact hyes
  exact hno

section

variable (hchecks : SurvivesChecks property failed)

include hchecks

theorem keeps_refuse
    (change : ValidationState → ValidationState) :
    Preserves property failed (refuse change : BlockM α) :=
  fun world hworld => hchecks.refuse world _ hworld

theorem keeps_refuseIf {condition : Bool} {level code : ℕ} {reason : String} {corruption : Bool} :
    Preserves property failed (refuseIf condition level code reason corruption) :=
  keeps_ite (keeps_refuse hchecks _) (Preserves.pure ())

theorem keeps_assertThat (condition : Bool) :
    Preserves property failed (assertThat condition) :=
  keeps_ite (Preserves.pure ()) (Preserves.throw hchecks.throw _)

theorem checkTransaction_keeps (tx : SignedTx) :
    Preserves property failed (checkTransaction env tx) := by
  have hvalues : ∀ outs total, Preserves property failed (checkValues env outs total) := by
    intro outs
    induction outs with
    | nil => exact fun _ => Preserves.pure ()
    | cons out outs ih =>
      intro total
      refine (keeps_refuseIf hchecks).bind fun _ => ?_
      refine (keeps_refuseIf hchecks).bind fun _ => ?_
      exact (keeps_refuseIf hchecks).bind fun _ => ih _
  refine (keeps_refuseIf hchecks).bind fun _ => ?_
  refine (keeps_refuseIf hchecks).bind fun _ => ?_
  refine (keeps_refuseIf hchecks).bind fun _ => ?_
  apply Preserves.bind (hvalues tx.vout 0)
  intro _
  refine (keeps_refuseIf hchecks).bind fun _ => ?_
  exact keeps_ite (keeps_refuseIf hchecks) (keeps_refuseIf hchecks)

theorem checkBlock_keeps (block : Block)
    (checkPOW checkRoot : Bool) :
    Preserves property failed (checkBlock env block checkPOW checkRoot) := by
  have hheader : Preserves property failed (checkBlockHeader env block checkPOW) :=
    (keeps_refuseIf hchecks).bind fun _ => keeps_refuseIf hchecks
  have hroot : Preserves property failed (checkMerkleRoot env block) :=
    (keeps_refuseIf hchecks).bind fun _ => keeps_refuseIf hchecks
  have hshape : Preserves property failed (checkShape env block checkPOW checkRoot) := by
    apply Preserves.bind hheader
    intro _
    apply Preserves.bind (keeps_ite hroot (Preserves.pure ()))
    intro _
    refine (keeps_refuseIf hchecks).bind fun _ => ?_
    refine (keeps_refuseIf hchecks).bind fun _ => ?_
    refine (keeps_refuseIf hchecks).bind fun _ => ?_
    exact Preserves.forM fun tx _ => checkTransaction_keeps hchecks tx
  have hbanned : Preserves property failed (checkBanned env block) := by
    apply keeps_ite
    · apply Preserves.bind
      · apply Preserves.modify
        intro world hworld
        split
        · exact hworld
        · exact hchecks.bannedBlocks world _ hworld
      · exact fun _ => Preserves.throw hchecks.throw _
    · exact Preserves.pure ()
  apply Preserves.bind hshape
  intro _
  exact Preserves.bind hbanned fun _ => keeps_refuseIf hchecks

theorem valueOut_keeps (tx : SignedTx) :
    Preserves property failed (valueOut env tx) := by
  unfold valueOut
  split
  · exact Preserves.pure _
  exact Preserves.throw hchecks.throw _

theorem checkInputsM_keeps (index : BlockIndex)
    (tx : SignedTx) (scriptChecks : Bool) (flags : VerifyFlags) :
    Preserves property failed (checkInputsM env index tx scriptChecks flags) := by
  apply Preserves.bind Preserves.get
  intro world
  split
  · exact Preserves.pure _
  · exact Preserves.throw hchecks.throw _
  exact keeps_refuse hchecks _

theorem checkCoinbaseValue_keeps (block : Block)
    (index : BlockIndex) (totals : Totals) :
    Preserves property failed (checkCoinbaseValue env block index totals) := by
  apply Preserves.bind
  · split
    · exact Preserves.throw hchecks.throw _
    · exact Preserves.bind (valueOut_keeps hchecks _) fun _ => keeps_refuseIf hchecks
  exact fun _ => keeps_refuseIf hchecks

theorem writeUndo_keeps (disk : Disk)
    (index : BlockIndex) : Preserves property failed (writeUndo disk index) :=
  keeps_ite (keeps_ite (keeps_refuse hchecks _)
    (keeps_ite (keeps_refuse hchecks _) (Preserves.pure ()))) (Preserves.pure ())

theorem writeTxIndex_keeps (disk : Disk) :
    Preserves property failed (writeTxIndex env disk) :=
  keeps_ite (keeps_refuse hchecks _) (Preserves.pure ())

end

structure SurvivesChanges (changes : Chain → Chain → Prop) (property failed : World → Prop) : Prop
    extends SurvivesChecks property failed where
  chain : ∀ world next, changes world.chain next → property world →
    property { world with chain := next }

section Changes

variable {changes : Chain → Chain → Prop}
  (hchanges : SurvivesChanges changes property failed)

include hchanges

theorem keeps_changeThen {change : World → Chain} {next : World → BlockM α}
    (hchange : ∀ world, changes world.chain (change world))
    (hnext : ∀ world, Preserves property failed (next world)) :
    Preserves property failed (do
      let world ← get
      set { world with chain := change world }
      next world) :=
  fun world hworld => hnext world _ (hchanges.chain world _ (hchange world) hworld)

section

variable (block : Block) (index : BlockIndex) (justCheck : Bool)
  (hchecked : ∀ chain : Chain, changes chain { chain with permissions := (checkBlockPermissions env block index chain.permissions).2 })

include block index justCheck hchecked

theorem checkMiner_keeps :
    Preserves property failed (checkMiner env block index justCheck) := by
  apply keeps_ite (Preserves.pure _)
  apply keeps_changeThen hchanges fun world => hchecked world.chain
  intro world
  split
  · exact keeps_refuse hchanges.toSurvivesChecks _
  exact Preserves.pure _

theorem beginBlock_keeps
    (hcleared : ∀ chain : Chain, changes chain { chain with
      permissions := chain.permissions.clearMemPool
      assets := chain.assets.clearMemPool }) :
    Preserves property failed (beginBlock env block index justCheck) := by
  have hchecks := hchanges.toSurvivesChecks
  apply Preserves.bind
  · exact keeps_ite (checkBlock_keeps hchecks _ _ _) (Preserves.pure ())
  intro _
  apply Preserves.bind (checkMiner_keeps hchanges block index justCheck hchecked)
  intro miner
  apply Preserves.bind Preserves.get
  intro _
  apply Preserves.bind (keeps_assertThat hchecks _)
  intro _
  apply Preserves.bind
  · apply keeps_ite (Preserves.pure ())
    exact Preserves.modify fun world => hchanges.chain world _ (hcleared world.chain)
  exact fun _ => Preserves.pure miner

end

theorem acceptTx_keeps (tx : SignedTx) (offset : ℤ) (justCheck : Bool)
    (haccepted : ∀ world, changes world.chain (accept env tx offset world).1) :
    Preserves property failed (acceptTx env tx offset justCheck) := by
  apply keeps_ite (Preserves.pure ())
  apply keeps_changeThen hchanges haccepted
  intro world
  split
  · exact Preserves.pure ()
  exact keeps_refuse hchanges.toSurvivesChecks _

theorem acceptCoinbase_keeps (tx : SignedTx) (offset : ℤ) (justCheck : Bool)
    (haccepted : ∀ world, changes world.chain (acceptPermissions env tx offset world).1) :
    Preserves property failed (acceptCoinbase env tx offset justCheck) := by
  apply keeps_ite (Preserves.pure ())
  apply keeps_changeThen hchanges haccepted
  intro world
  split
  · exact Preserves.pure ()
  exact Preserves.throw hchanges.throw _

theorem connectGenesisTx_keeps (offset : ℤ) (tx : SignedTx)
    (haccepted : ∀ world, changes world.chain (acceptPermissions env tx offset world).1) :
    Preserves property failed (connectGenesisTx env offset tx) := by
  apply keeps_changeThen hchanges haccepted
  intro world
  split
  · exact Preserves.pure _
  exact keeps_refuse hchanges.toSurvivesChecks _

end Changes

end Amberchain.Validation
