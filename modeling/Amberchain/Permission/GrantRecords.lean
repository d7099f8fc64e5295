import Amberchain.Permission.LiveRuns

/-!
# The stored grant records of a block

`VerifyBlockMiner` replays the grants of a verified block from the offsets stored
under its hash.  `Commit` stores the block's miner after it has emptied the
mempool, so it never stores an offset.
-/

namespace Amberchain.Permission

namespace Store

variable (params : ChainParams) (store : Store)

/-- The nonzero offsets of the records from `recordID` on, until one is not
found. -/
def readGrantRecords (hash : Hash256) : ℕ → ℕ → List (BitVec 32)
  | 0, _ => []
  | fuel + 1, recordID =>
    match store.getBlockAdminMinerGrants hash recordID with
    | .error _ => []
    | .ok offsets =>
      offsets.toList.filter (fun offset => offset ≠ 0)
        ++ readGrantRecords hash fuel (recordID + 1)

/-- What the replay loop of `VerifyBlockMiner` reads for a block.  Every record
found has its own key in the database, which bounds the number of rounds. -/
def readGrants (hash : Hash256) : List (BitVec 32) :=
  store.readGrantRecords hash store.db.grants.keys.card 1

def blockOffsets : List (BitVec 32) :=
  (store.blockGrants.map LedgerRow.offset).dedup

def RecordsComplete (hash : Hash256) (offsets : List (BitVec 32)) : Prop :=
  ∀ row, store.getBlockMiner hash = .ok row → store.readGrants hash = offsets

variable {store}

theorem readGrants_congr {other : Store} (hgrants : other.db.grants = store.db.grants)
    (hash : Hash256) : other.readGrants hash = store.readGrants hash := by
  have hrecords : ∀ fuel recordID, other.readGrantRecords hash fuel recordID =
      store.readGrantRecords hash fuel recordID := by
    intro fuel
    induction fuel with
    | zero => exact fun _ => rfl
    | succ fuel ih =>
      intro recordID
      simp only [readGrantRecords, getBlockAdminMinerGrants, hgrants, ih]
  unfold readGrants
  rw [hrecords, hgrants]

def isGrantsWrite : DBWrite → Bool
  | .grants _ _ _ => true
  | _ => false

theorem commit_grants {batch : List DBWrite} :
    ∀ {db : PermissionDB}, (∀ entry ∈ batch, isGrantsWrite entry = false) →
      (db.commit batch).grants = db.grants := by
  induction batch with
  | nil => exact fun _ => rfl
  | cons entry batch ih =>
    intro db hbatch
    rw [PermissionDB.commit_cons, ih fun other hother => hbatch other (by simp [hother])]
    have hentry := hbatch entry (by simp)
    cases entry with
    | grants hash recordID offsets => cases hentry
    | _ => rfl

theorem updateCounts_grants (store : Store) : store.updateCounts.db.grants = store.db.grants := by
  unfold updateCounts
  split
  · rfl
  split
  · rfl
  apply commit_grants
  unfold updateCountsBatch
  intro entry hentry
  split at hentry
  · cases hentry
  simp only [List.mem_cons, List.not_mem_nil, or_false] at hentry
  rcases hentry with rfl | rfl <;> rfl

theorem writeAll_grants (writes : List DiskWrite) (store : Store)
    (hwrites : ∀ batch, DiskWrite.dbCommit batch ∈ writes →
      ∀ entry ∈ batch, isGrantsWrite entry = false) :
    (store.writeAll writes).db.grants = store.db.grants := by
  induction writes generalizing store with
  | nil => rfl
  | cons write writes ih =>
    have hnext := ih (store.writeDisk write) fun batch hbatch => hwrites batch (by simp [hbatch])
    refine hnext.trans ?_
    cases write with
    | ledgerRow rowID row => rfl
    | ledgerHeader header => rfl
    | dbCommit batch => exact commit_grants (hwrites batch (by simp))

theorem commitBatch_not_grants : ∀ entry ∈ store.commitBatch, isGrantsWrite entry = false := by
  intro entry hentry
  rcases List.mem_append.mp hentry with hrow | hheader
  · obtain ⟨row, _, hwrite⟩ := List.mem_flatMap.mp hrow
    unfold rowWrites at hwrite
    split at hwrite
    · simp only [List.mem_cons, List.not_mem_nil, or_false] at hwrite
      rcases hwrite with rfl | rfl <;> rfl
    rw [List.mem_singleton.mp hwrite]
    rfl
  rw [List.mem_singleton.mp hheader]
  rfl

/-- The files of a block hold no grant record. -/
theorem commitCounts_grants (miner : Hash160) (hash : Hash256) :
    (store.commitCounts miner hash).db.grants = store.db.grants := by
  have hfiles : (store.commitFiles miner hash).db.grants = store.db.grants := by
    refine writeAll_grants _ _ fun batch hbatch => ?_
    rcases List.mem_append.mp hbatch with hrow | hlast
    · obtain ⟨_, _, hwrite⟩ := List.mem_map.mp hrow
      cases hwrite
    simp only [List.mem_cons, List.not_mem_nil, or_false, reduceCtorEq, false_or,
      DiskWrite.dbCommit.injEq] at hlast
    rw [hlast]
    exact commitBatch_not_grants
  have hcounted : (store.commitFiles miner hash).countCommitted.db.grants =
      store.db.grants := by
    have hcounts := updateCounts_grants
      ((store.commitFiles miner hash).setBlock ((store.commitFiles miner hash).block + 1))
    exact hcounts.trans hfiles
  refine (writeAll_grants _ _ fun batch hbatch => ?_).trans hcounted
  obtain ⟨_, _, hwrite⟩ := List.mem_map.mp hbatch
  cases hwrite

theorem commit_getBlockMiner (hkeeps : keepsRecords params = true) (store : Store)
    (miner : Hash160) (hash : Hash256) :
    ∃ row, (store.commit params miner hash).getBlockMiner hash = .ok row := by
  unfold Store.commit storeBlockInfoInternal
  dsimp only
  rw [if_pos hkeeps]
  simp only [getBlockMiner, recordBlockMiner, writeDisk, PermissionDB.commit_cons,
    PermissionDB.commit_nil, PermissionDB.write, setBlock, Finmap.lookup_insert]
  exact ⟨_, rfl⟩

theorem commit_readGrants (hkeeps : keepsRecords params = true) (store : Store)
    (miner : Hash160) (hash : Hash256) (other : Hash256) :
    (store.commit params miner hash).readGrants other = store.readGrants other := by
  apply readGrants_congr
  refine Eq.trans ?_ (commitCounts_grants miner hash)
  unfold Store.commit storeBlockInfoInternal
  dsimp only
  rw [if_pos hkeeps]
  rfl

/-- After `Commit` the stored records are complete exactly when they were so
before: when earlier verifications of the block had stored its offsets, or the
block has no grants and nothing is stored under its hash. -/
theorem commit_recordsComplete_iff (hkeeps : keepsRecords params = true)
    (store : Store) (miner : Hash160) (hash : Hash256) :
    (store.commit params miner hash).RecordsComplete hash store.blockOffsets ↔
      store.readGrants hash = store.blockOffsets := by
  obtain ⟨row, hminer⟩ := commit_getBlockMiner params hkeeps store miner hash
  have hread := commit_readGrants params hkeeps store miner hash hash
  constructor
  · intro hcomplete
    rw [← hread]
    exact hcomplete row hminer
  intro hstored row' _
  rw [hread]
  exact hstored

theorem minedOnce_recordsComplete_iff :
    (minedOnce.commit .defaults firstMiner 2).RecordsComplete 2 minedOnce.blockOffsets ↔
      minedOnce.readGrants 2 = minedOnce.blockOffsets :=
  commit_recordsComplete_iff .defaults (by decide) minedOnce firstMiner 2

/-- A block with one grant: its miner is on record, the grant is not. -/
theorem commit_recordsComplete_fails :
    ¬ ∀ (params : ChainParams) (store : Store) (miner : Hash160) (hash : Hash256),
      Reachable params store → keepsRecords params = true →
      (store.commit params miner hash).RecordsComplete hash store.blockOffsets := by
  intro hcomplete
  have hiff := (hcomplete .defaults (minedOnce.call .defaults (.grant secondMinerGrant))
    firstMiner 2 (minedOnce_reachable.apply (.call (.grant secondMinerGrant)) trivial)
    (by decide))
  obtain ⟨row, hminer⟩ := commit_getBlockMiner .defaults (by decide)
    (minedOnce.call .defaults (.grant secondMinerGrant)) firstMiner 2
  have hread := hiff row hminer
  revert hread
  decide +kernel

end Store

end Amberchain.Permission
