import Amberchain.Permission.InitializeLive

/-!
# Fork verification sessions

`VerifyBlockMiner` takes the store back to the fork height, replays the blocks
of the branch into the mempool, and restores the store.  Everything it must put
back is either left alone or copied in between.
-/

namespace Amberchain.Permission

/-- What `VerifyBlockMiner` does to the store for a block of the branch.  The
miner check `CanMineBlockOnFork` only reads. -/
inductive ForkStep where
  | grant (grant : Grant)
  | increment (adminMinerCount : BitVec 32)
  | storeInfo (miner : Hash160) (hash : Hash256)

namespace Store

variable (params : ChainParams)

def forkStep (store : Store) : ForkStep → Store
  | .grant grant => (store.setPermission params grant).1
  | .increment adminMinerCount => store.incrementBlock adminMinerCount
  | .storeInfo miner hash => store.storeBlockInfo params miner hash

def forkSteps (store : Store) (steps : List ForkStep) : Store :=
  steps.foldl (forkStep params) store

/-- The store between the two ends of a session. -/
def forkState (store : Store) (height : ℕ) (steps : List ForkStep) : Store :=
  (store.rollBackBeforeMinerVerification height).1.forkSteps params steps

/-- A whole session. -/
def verifyFork (store : Store) (height : ℕ) (steps : List ForkStep) : Store :=
  (store.forkState params height steps).restoreAfterMinerVerification

end Store

/-- `new` differs from `old` in the records of verified blocks, and its
admin/miner list may have more entries. -/
structure RecordsAdded (old new : PermissionDB) : Prop where
  rows : new.rows = old.rows
  header : new.header = old.header
  listMarker : new.listMarker = old.listMarker
  list : old.adminMinerList ⊆ new.adminMinerList

theorem RecordsAdded.refl (db : PermissionDB) : RecordsAdded db db :=
  ⟨rfl, rfl, rfl, Finset.Subset.refl _⟩

theorem RecordsAdded.trans {first second third : PermissionDB}
    (hleft : RecordsAdded first second) (hright : RecordsAdded second third) :
    RecordsAdded first third :=
  ⟨hright.rows.trans hleft.rows, hright.header.trans hleft.header,
    hright.listMarker.trans hleft.listMarker, hleft.list.trans hright.list⟩

def isRecordWrite : DBWrite → Bool
  | .listEntries _ => true
  | .blockMiner _ _ => true
  | .grants _ _ _ => true
  | _ => false

theorem recordsAdded_write (db : PermissionDB) {entry : DBWrite}
    (hentry : isRecordWrite entry = true) : RecordsAdded db (db.write entry) := by
  cases entry with
  | header value => cases hentry
  | row key value => cases hentry
  | delete key => cases hentry
  | listMarker => cases hentry
  | listEntries entries => exact ⟨rfl, rfl, rfl, Finset.subset_union_right⟩
  | blockMiner hash value => exact ⟨rfl, rfl, rfl, Finset.Subset.refl _⟩
  | grants hash recordID offsets => exact ⟨rfl, rfl, rfl, Finset.Subset.refl _⟩

theorem recordsAdded_commit : ∀ (batch : List DBWrite) (db : PermissionDB),
    (∀ entry ∈ batch, isRecordWrite entry = true) → RecordsAdded db (db.commit batch) := by
  intro batch
  induction batch with
  | nil => exact fun db _ => RecordsAdded.refl db
  | cons entry batch ih =>
    intro db hbatch
    exact (recordsAdded_write db (hbatch entry (by simp))).trans
      (ih _ fun other hother => hbatch other (by simp [hother]))

theorem isRecordWrite_add {hash : Hash256} {pack : GrantPack} (row : LedgerRow)
    (hpack : ∀ entry ∈ pack.batch, isRecordWrite entry = true) :
    ∀ entry ∈ (pack.add hash row).batch, isRecordWrite entry = true := by
  intro entry hmem
  unfold GrantPack.add GrantPack.flush GrantPack.store at hmem
  have hlisted : ∀ entry ∈ pack.batch ++ [.listEntries {(row.key.address, row.key.type)}],
      isRecordWrite entry = true := by
    intro entry hentry
    rcases List.mem_append.mp hentry with hold | hnew
    · exact hpack entry hold
    rw [List.mem_singleton.mp hnew]
    rfl
  dsimp only at hmem
  split at hmem
  · split at hmem
    · rcases List.mem_append.mp hmem with hold | hnew
      · exact hlisted entry hold
      rw [List.mem_singleton.mp hnew]
      rfl
    · exact hlisted entry hmem
  exact hlisted entry hmem

theorem isRecordWrite_grantBatch (store : Store) (hash : Hash256) :
    ∀ entry ∈ store.grantBatch hash, isRecordWrite entry = true := by
  have hfold : ∀ (rows : List LedgerRow) (pack : GrantPack),
      (∀ entry ∈ pack.batch, isRecordWrite entry = true) →
      ∀ entry ∈ (rows.foldl (GrantPack.add hash) pack).batch, isRecordWrite entry = true := by
    intro rows
    induction rows with
    | nil => exact fun pack hpack => hpack
    | cons row rows ih => exact fun pack hpack => ih _ (isRecordWrite_add row hpack)
  intro entry hmem
  have hbatch := hfold store.blockGrants GrantPack.start (by intro entry hentry; cases hentry)
  unfold Store.grantBatch GrantPack.finish at hmem
  split at hmem
  · rcases List.mem_append.mp hmem with hold | hnew
    · exact hbatch entry hold
    rw [List.mem_singleton.mp hnew]
    rfl
  exact hbatch entry hmem

namespace Store

variable (params : ChainParams) {store : Store}

/-- A store inside a session that started at `store`. -/
structure Forked (store fork : Store) : Prop where
  frame : fork =
    { store with
      db := fork.db
      memPool := fork.memPool
      block := fork.block
      row := fork.row
      adminCount := fork.adminCount
      minerCount := fork.minerCount
      clearedMinerCountForMinerVerification := fork.clearedMinerCountForMinerVerification
      forkBlock := fork.forkBlock
      copiedBlock := store.block
      copiedRow := store.memPoolStart
      copiedAdminCount := store.adminCount
      copiedMinerCount := store.minerCount
      copiedMemPool := store.memPool }
  records : RecordsAdded store.db fork.db

/-- The pointers move, but what the restore needs has been copied. -/
theorem forked_rollBackBefore (hlive : Live store) {height : ℕ}
    (hheight : (height : ℤ) ≤ store.block) :
    (store.rollBackBeforeMinerVerification height).2 = none ∧
      Forked store (store.rollBackBeforeMinerVerification height).1 := by
  have hnot : ¬ store.height < height := by
    rw [height_of_nonneg (by omega) hlive.files.block_lt]
    omega
  have hrow : (if store.copyMemPool.memPool ≠ [] then store.copyMemPool.dropMemPool
      else store.copyMemPool).row = store.memPoolStart := by
    split
    · rfl
    rename_i hempty
    exact (memPoolStart_of_empty (not_not.mp hempty)).symm
  unfold rollBackBeforeMinerVerification
  rw [if_neg hnot]
  dsimp only
  by_cases hempty : store.copyMemPool.memPool = []
  · rw [if_neg (not_not.mpr hempty)] at hrow ⊢
    split
    · exact ⟨rfl, ⟨by rw [hrow]; rfl, RecordsAdded.refl _⟩⟩
    · exact ⟨rfl, ⟨by rw [hrow]; rfl, RecordsAdded.refl _⟩⟩
  rw [if_pos hempty] at hrow ⊢
  split
  · exact ⟨rfl, ⟨rfl, RecordsAdded.refl _⟩⟩
  exact ⟨rfl, ⟨rfl, RecordsAdded.refl _⟩⟩

/-- Appending a row keeps the copies, since no cleared count is saved. -/
theorem Forked.append {fork next : Store} {row : LedgerRow} (hstart : 0 < store.memPoolStart)
    (hfork : Forked store fork) (happ : fork.Appended row next) : Forked store next := by
  have hcopied : fork.copiedRow ≠ 0 := by
    rw [hfork.frame]
    exact hstart.ne'
  have hsave : fork.saveClearedCounts = fork := if_neg fun hboth => hcopied hboth.2
  obtain ⟨adminCount, minerCount, hframe⟩ := happ.frame
  rw [hsave] at hframe
  refine ⟨?_, ?_⟩
  · rw [hframe]
    unfold addMemPool
    rw [hfork.frame]
  rw [happ.db_eq]
  exact hfork.records

theorem commit_listMarker (batch : List DBWrite) :
    ∀ {db : PermissionDB}, db.listMarker = true → (db.commit batch).listMarker = true := by
  induction batch with
  | nil => exact fun hmarker => hmarker
  | cons entry batch ih =>
    intro db hmarker
    apply ih
    cases entry with
    | listMarker => rfl
    | _ => exact hmarker

theorem updateCounts_of_marker (hmarker : store.db.listMarker = true) :
    ∃ adminCount minerCount, store.updateCounts =
      { store with adminCount := adminCount, minerCount := minerCount } := by
  unfold updateCounts
  rw [if_pos hmarker]
  exact ⟨_, _, rfl⟩

/-- What is done for a block of the branch besides its grants: the height and the counts
move, and the block is recorded. -/
structure Advanced (fork next : Store) : Prop where
  frame : next =
    { fork with
      db := next.db
      block := next.block
      adminCount := next.adminCount
      minerCount := next.minerCount
      clearedMinerCountForMinerVerification := next.clearedMinerCountForMinerVerification }
  records : RecordsAdded fork.db next.db
  block_le : fork.block ≤ next.block

section Advanced

variable {fork next : Store}

theorem Advanced.trans {last : Store} (hfirst : Advanced fork next)
    (hsecond : Advanced next last) : Advanced fork last where
  frame := by
    rw [hsecond.frame, hfirst.frame]
  records := hfirst.records.trans hsecond.records
  block_le := hfirst.block_le.trans hsecond.block_le

theorem advanced_writeRecords {batch : List DBWrite}
    (hbatch : ∀ entry ∈ batch, isRecordWrite entry = true) :
    Advanced fork (fork.writeDisk (.dbCommit batch)) :=
  ⟨rfl, recordsAdded_commit batch fork.db hbatch, le_rfl⟩

theorem advanced_countAfterBlock (hmarker : fork.db.listMarker = true) :
    Advanced fork fork.countAfterBlock := by
  have hnext : (fork.setBlock (fork.block + 1)).db.listMarker = true := hmarker
  obtain ⟨adminCount, minerCount, hcount⟩ := updateCounts_of_marker hnext
  unfold countAfterBlock
  rw [hcount]
  exact ⟨rfl, RecordsAdded.refl _, le_rfl⟩

theorem advanced_storeBlockInfo (hmarker : fork.db.listMarker = true) (miner : Hash160)
    (hash : Hash256) : Advanced fork (fork.storeBlockInfo params miner hash) := by
  have hmoved (other : Store) : Advanced other (other.setBlock (other.block + 1)) :=
    ⟨rfl, RecordsAdded.refl _, Int.le_add_one le_rfl⟩
  unfold Store.storeBlockInfo storeBlockInfoInternal
  split
  · have hgrants : Advanced fork (fork.writeDisk (.dbCommit (fork.grantBatch hash))) :=
      advanced_writeRecords (isRecordWrite_grantBatch fork hash)
    refine Advanced.trans (hgrants.trans ((advanced_countAfterBlock
      (hgrants.records.listMarker.trans hmarker)).trans ?_)) (hmoved _)
    refine advanced_writeRecords fun entry hentry => ?_
    rw [List.mem_singleton.mp hentry]
    rfl
  exact hmoved fork

theorem advanced_incrementBlock (hmarker : fork.db.listMarker = true)
    (adminMinerCount : BitVec 32) : Advanced fork (fork.incrementBlock adminMinerCount) := by
  have hle : fork.block ≤ fork.block + 1 := Int.le_add_one le_rfl
  have hnext : (fork.setBlock (fork.block + 1)).db.listMarker = true := hmarker
  obtain ⟨adminCount, minerCount, hcount⟩ := updateCounts_of_marker hnext
  unfold Store.incrementBlock
  dsimp only
  rw [hcount]
  split <;> split <;> exact ⟨rfl, RecordsAdded.refl _, hle⟩

theorem Forked.advance (hfork : Forked store fork) (hnext : Advanced fork next) :
    Forked store next where
  frame := by rw [hnext.frame, hfork.frame]
  records := hfork.records.trans hnext.records

end Advanced

/-- No step of a session touches what the restore needs. -/
theorem Forked.step {fork : Store} (hlive : Live store) (hfork : Forked store fork)
    (step : ForkStep) : Forked store (fork.forkStep params step) := by
  have hmarker := hfork.records.listMarker.trans hlive.files.index.listMarker
  cases step with
  | grant grant =>
    exact setPermission_induct params grant
      (fun _ _ _ hold happ => hold.append hlive.pool.start_pos happ) hfork
  | increment adminMinerCount =>
    exact hfork.advance (advanced_incrementBlock hmarker adminMinerCount)
  | storeInfo miner hash => exact hfork.advance (advanced_storeBlockInfo params hmarker miner hash)

theorem Forked.steps {fork : Store} (hlive : Live store) (hfork : Forked store fork)
    (steps : List ForkStep) : Forked store (fork.forkSteps params steps) := by
  induction steps generalizing fork with
  | nil => exact hfork
  | cons step steps ih => exact ih (hfork.step params hlive step)

/-- The store without what the live operations never read: the records of
verified blocks, the admin/miner list beyond the rows of the log, and the fields
of a fork verification. -/
def liveView (store : Store) : Store :=
  { store with
    db := { store.db with adminMinerList := ∅, blockMiners := ∅, grants := ∅ }
    clearedMinerCountForMinerVerification := 0
    copiedBlock := 0
    forkBlock := 0
    copiedAdminCount := 0
    copiedMinerCount := 0
    copiedMemPool := [] }

def SameView (store other : Store) : Prop :=
  store.liveView = other.liveView

theorem Live.verifyFork_spec (hlive : Live store) {height : ℕ}
    (hheight : (height : ℤ) ≤ store.block) (steps : List ForkStep) :
    SameView store (store.verifyFork params height steps) ∧
      RecordsAdded store.db (store.verifyFork params height steps).db := by
  have hbefore := (forked_rollBackBefore hlive hheight).2
  have hfork : Forked store (store.forkState params height steps) :=
    hbefore.steps params hlive steps
  have hend := hlive.pool.start_add_length
  have hrecords : RecordsAdded store.db (store.verifyFork params height steps).db := hfork.records
  refine ⟨?_, hrecords⟩
  unfold SameView verifyFork restoreAfterMinerVerification
  rw [hfork.frame]
  simp only [liveView, hend, hlive.notForking, hfork.records.rows, hfork.records.header,
    hfork.records.listMarker]

end Store

end Amberchain.Permission
