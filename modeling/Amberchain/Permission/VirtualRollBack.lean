import Amberchain.Permission.RollBackBlocks

/-!
# The virtual rollback of a fork verification

`RollBackBeforeMinerVerification` moves pointers only and lets the lookups walk
the ledger back to the fork height.  For the rows that decide who may mine it
shows what a real rollback to that height would show.
-/

namespace Amberchain.Permission

open RowChain

namespace Store

variable {store : Store}

structure VirtuallyRolledBack (store fork : Store) (height cut : ℕ) : Prop where
  isCut : Cut store.ledger.getRow store.memPoolStart height cut
  db : fork.db = store.db
  ledger : fork.ledger = store.ledger
  memPool : fork.memPool = []
  block : fork.block = height
  row : fork.row = cut
  forkBlock : fork.forkBlock = height
  copiedRow : fork.copiedRow = store.memPoolStart
  admins : fork.adminCount =
    countAt store.ledger.getRow MC_PTP_ADMIN cut (height + 1)
  miners : fork.minerCount =
    countAt store.ledger.getRow MC_PTP_MINE cut (height + 1)

theorem Live.blockIndex_thisRow (hlive : Live store) {height last : ℕ}
    (hheight : (height : ℤ) ≤ store.block)
    (hend : BlockEnd store.ledger.getRow store.memPoolStart height last) (fork : Store)
    (hdb : fork.db = store.db) (hmemPool : fork.memPool = []) :
    (fork.permissionRow (blockIndexKey height) true).thisRow = last - 1 := by
  obtain ⟨dbRow, hlookup, hledgerRow⟩ := hlive.files.index.blockIndex height last hheight hend
  have hplain : isForkType (blockIndexKey height).type = false := by
    show isForkType MC_PTP_BLOCK_INDEX = false
    decide
  have hentity : (blockIndexKey height).entity ≠ upgradeEntity := by
    show nullEntity ≠ upgradeEntity
    decide
  have hcommitted : (fork.permissionRow (blockIndexKey height) false).thisRow = last - 1 := by
    unfold permissionRow committedRow
    rw [hdb, hlookup]
    simp only [if_neg hentity, hplain, Bool.false_eq_true, and_false, if_false]
    exact hledgerRow
  have hrow : fork.permissionRow (blockIndexKey height) true =
      fork.permissionRow (blockIndexKey height) false := by
    unfold permissionRow
    rw [hmemPool]
    rfl
  rw [hrow]
  exact hcommitted

/-- The counts at the fork height come from the block's index row. -/
theorem Live.virtuallyRolledBack (hlive : Live store) {height : ℕ}
    (hheight : (height : ℤ) ≤ store.block) :
    ∃ cut, VirtuallyRolledBack store (store.rollBackBeforeMinerVerification height).1
      height cut := by
  have hnonneg : 0 ≤ store.block := by omega
  have hstoreHeight := height_of_nonneg hnonneg hlive.files.block_lt
  have hnot : ¬ store.height < height := by omega
  obtain ⟨last, hblockEnd⟩ := hlive.files.log.ends height hheight
  have hcut : Cut store.ledger.getRow store.memPoolStart height last := by
    have htwo := hblockEnd.two_lt
    refine ⟨by omega, hblockEnd.le_base, fun i hi hlt => ?_, fun i hi hlt => ?_⟩
    · exact_mod_cast hblockEnd.under i hi hlt
    · exact_mod_cast hblockEnd.beyond i hi hlt
  -- the mempool is dropped with its counts
  let dropped : Store :=
    if store.copyMemPool.memPool ≠ [] then store.copyMemPool.dropMemPool
    else store.copyMemPool
  have hdropped : dropped =
      { store.copyMemPool with
        memPool := []
        row := store.memPoolStart
        adminCount := store.clearedAdminCount
        minerCount := store.clearedMinerCount } := by
    simp only [dropped]
    by_cases hempty : store.memPool = []
    · obtain ⟨hadmins, hminers⟩ := hlive.counts hempty
      have hstart := memPoolStart_of_empty hempty
      rw [if_neg (not_not.mpr (show store.copyMemPool.memPool = [] from hempty)), hstart,
        ← hadmins, ← hminers, ← hempty]
      rfl
    rw [if_pos (show store.copyMemPool.memPool ≠ [] from hempty)]
    rfl
  refine ⟨last, ?_⟩
  unfold rollBackBeforeMinerVerification
  rw [if_neg hnot]
  dsimp only
  rw [show (if store.copyMemPool.memPool ≠ [] then store.copyMemPool.dropMemPool
    else store.copyMemPool) = dropped from rfl, hdropped]
  split
  · -- the fork height is the current one
    rename_i hsame
    have hsame : store.height = height := hsame
    have hblock : store.block = height := by omega
    have hbase : last = store.memPoolStart := by
      refine hcut.unique ⟨hlive.files.log.pos, le_rfl, fun i hi hlt => ?_, fun i hi hlt => ?_⟩
      · rw [← hblock]
        exact hlive.files.log.received_le i hi hlt
      · omega
    have hnext : store.nextBlock = height + 1 := by
      unfold nextBlock
      omega
    refine ⟨hcut, rfl, rfl, rfl, hblock, hbase.symm, rfl, rfl, ?_, ?_⟩
    · rw [hbase, ← hnext]
      exact hlive.clearedAdmins
    rw [hbase, ← hnext]
    exact hlive.clearedMiners
  have hfound := fun fork => hlive.blockIndex_thisRow hheight hblockEnd fork
  refine ⟨hcut, rfl, rfl, rfl, rfl, hcut.cutRow_eq, rfl, rfl, ?_, ?_⟩
  · refine Eq.trans ?_ hblockEnd.admins
    refine congrArg (fun i => (store.ledger.getRow i).adminCount) (hfound _ ?_ ?_)
    · rfl
    · rfl
  refine Eq.trans ?_ hblockEnd.miners
  refine congrArg (fun i => (store.ledger.getRow i).minerCount) (hfound _ ?_ ?_)
  · rfl
  rfl

theorem walkToFork_eq (ledger : PermissionLedger) (forkBlock : ℕ) :
    ∀ fuel i : ℕ, walkToFork ledger forkBlock fuel (ledger.getRow i) =
      ledger.getRow (walkBack (prevAt ledger.getRow)
        (fun i => forkBlock < (ledger.getRow i).blockReceived) fuel i) := by
  intro fuel
  induction fuel with
  | zero => exact fun _ => rfl
  | succ fuel ih =>
    intro i
    unfold walkToFork walkBack
    by_cases hgo : 0 < (ledger.getRow i).prevRow ∧ forkBlock < (ledger.getRow i).blockReceived
    · rw [if_pos hgo, if_pos (by simpa [prevAt] using hgo)]
      exact ih _
    rw [if_neg hgo, if_neg (by simpa [prevAt] using hgo)]

/-- During the verification the lookups of the fork types read the rows below
the cut. -/
theorem VirtuallyRolledBack.showsBelow {fork : Store} {height cut : ℕ}
    (hlive : Live store) (hfork : VirtuallyRolledBack store fork height cut)
    (address : Hash160) {type : PermType} (htype : isForkType type = true) :
    fork.ShowsBelow ⟨nullEntity, address, type⟩ cut := by
  have hbase := hlive.files.log.pos
  have hcutLe := hfork.isCut.le_base
  have hsize := hlive.files.size
  have hindex : (⟨nullEntity, address, type⟩ : PermKey).type ≠ MC_PTP_BLOCK_INDEX := by
    intro heq
    rw [show type = MC_PTP_BLOCK_INDEX from heq] at htype
    cases htype
  have hwalks : 0 < fork.copiedRow ∧ isForkType type = true := by
    rw [hfork.copiedRow]
    exact ⟨hbase, htype⟩
  have hforkBlock : fork.forkBlock.toNat = height := by
    rw [hfork.forkBlock, Int.toNat_natCast]
  unfold ShowsBelow committedRow
  rw [hfork.db, hfork.ledger, hforkBlock]
  cases hlookup : store.db.rows.lookup ⟨nullEntity, address, type⟩ with
  | none =>
    have hnone := hlive.files.index.rows.lookup_eq_none hindex hlookup
    by_contra hrow
    have hmono : newestRow store.ledger.getRow ⟨nullEntity, address, type⟩ cut ≤
        newestRow store.ledger.getRow ⟨nullEntity, address, type⟩ store.memPoolStart :=
      lastRow_mono hcutLe
    rw [hnone] at hmono
    exact hrow (Nat.le_zero.mp hmono)
  | some dbRow =>
    obtain ⟨hrow, hvisible⟩ := hlive.files.index.rows.lookup_eq_some hindex hlookup
    have hledgerRow := congrArg DBRow.ledgerRow hvisible
    simp only [visible_ledgerRow, LedgerRow.toDBRow] at hledgerRow
    simp only [if_pos hwalks, hledgerRow]
    rw [walkToFork_eq]
    have hlinked := hlive.files.log.linked ⟨nullEntity, address, type⟩ hindex
    have hpast : ∀ i, 0 < i → i < store.memPoolStart →
        ((decide (height < (store.ledger.getRow i).blockReceived)) = true ↔ cut ≤ i) := by
      intro i hi hlt
      rw [decide_eq_true_eq]
      by_cases hover : cut ≤ i
      · have habove := hfork.isCut.beyond i hover hlt
        exact iff_of_true (by exact_mod_cast habove) hover
      have hbelow := hfork.isCut.under i hi (not_le.mp hover)
      exact iff_of_false (by omega) hover
    have hlast : newestRow store.ledger.getRow ⟨nullEntity, address, type⟩
        store.memPoolStart < store.memPoolStart := lastRow_lt hrow
    have hmin : lastRow (keyAt store.ledger.getRow) ⟨nullEntity, address, type⟩ cut =
        lastRow (keyAt store.ledger.getRow) ⟨nullEntity, address, type⟩
          (min cut (newestRow store.ledger.getRow ⟨nullEntity, address, type⟩
            store.memPoolStart + 1)) := by
      by_cases hle : cut ≤ newestRow store.ledger.getRow ⟨nullEntity, address, type⟩
          store.memPoolStart + 1
      · rw [min_eq_left hle]
      rw [min_eq_right (by omega), lastRow_succ_of_eq (Nat.pos_of_ne_zero hrow)
        (key_lastRow hrow)]
      exact lastRow_eq_of_lt_of_le (by unfold newestRow at hle; omega) hcutLe
    obtain ⟨hfound, hmissing⟩ := walkBack_lastRow hlinked hpast store.ledger.size
      (newestRow store.ledger.getRow ⟨nullEntity, address, type⟩ store.memPoolStart)
      (by omega) (Nat.pos_of_ne_zero hrow) hlast (key_lastRow hrow) hmin
    by_cases hnone : lastRow (keyAt store.ledger.getRow) ⟨nullEntity, address, type⟩ cut = 0
    · have hover := hmissing hnone
      rw [decide_eq_true_eq] at hover
      rw [if_pos hover]
      exact hnone
    obtain ⟨hat, hunder⟩ := hfound hnone
    rw [decide_eq_false_iff_not] at hunder
    rw [if_neg hunder, hat]
    have hnewest : RowAt store.ledger.getRow ⟨nullEntity, address, type⟩ cut _ :=
      RowAt.of_newest fun i hi hlt => hlive.files.log.thisRow i hi (by omega)
    rwa [newest, if_neg hnone] at hnewest

/-- What the fork verification needs to agree on. -/
structure SameOnFork (real fork : Store) : Prop where
  block : fork.block = real.block
  row : fork.row = real.row
  adminCount : fork.adminCount = real.adminCount
  minerCount : fork.minerCount = real.minerCount
  permission : ∀ address type checkMempool, isForkType type = true →
    (fork.getPermission ⟨nullEntity, address, type⟩ checkMempool).1 =
      (real.getPermission ⟨nullEntity, address, type⟩ checkMempool).1
  rows : ∀ address type checkMempool, isForkType type = true →
    SameRow ⟨nullEntity, address, type⟩
      (real.getPermission ⟨nullEntity, address, type⟩ checkMempool).2
      (fork.getPermission ⟨nullEntity, address, type⟩ checkMempool).2

end Store

end Amberchain.Permission
