import Amberchain.Permission.Preserve

/-!
# What the writes of a block leave on disk

A run of row writes puts a stretch of the log into the ledger, and the batch of
the block moves every key of that stretch to its newest row.
-/

namespace Amberchain.Permission

open RowChain

/-- `new` is `old` with the rows of a log written over `[start, start + count)`. -/
structure RowsWritten (row : ℕ → LedgerRow) (start count : ℕ)
    (old new : PermissionLedger) : Prop where
  getRow : ∀ i, new.getRow i =
    if start ≤ i ∧ i < start + count then row i else old.getRow i
  size : new.size = max old.size (start + count)
  header : new.header = old.header

namespace Store

theorem writeAll_append (store : Store) (first second : List DiskWrite) :
    store.writeAll (first ++ second) = (store.writeAll first).writeAll second :=
  List.foldl_append

/-- Writing consecutive rows that do not leave a gap behind the file. -/
theorem writeAll_rows (row : ℕ → LedgerRow) (start : ℕ) :
    ∀ (count : ℕ) (store : Store), start ≤ store.ledger.size →
      ∃ ledger, RowsWritten row start count store.ledger ledger ∧
        store.writeAll ((List.range' start count).map fun i =>
          .ledgerRow i (row i)) = { store with ledger := ledger } := by
  intro count
  induction count with
  | zero =>
    intro store hsize
    refine ⟨store.ledger, ⟨fun i => ?_, ?_, rfl⟩, rfl⟩
    · rw [if_neg (by omega)]
    · omega
  | succ count ih =>
    intro store hsize
    obtain ⟨ledger, hwritten, hstore⟩ := ih store hsize
    have hend : start + count ≤ ledger.size := by
      rw [hwritten.size]
      omega
    refine ⟨ledger.setRow (start + count) (row (start + count)), ⟨?_, ?_, ?_⟩, ?_⟩
    · intro i
      rw [ledger.getRow_setRow hend, hwritten.getRow]
      by_cases hlast : i = start + count
      · rw [if_pos hlast, if_pos (by omega), hlast]
      by_cases hin : start ≤ i ∧ i < start + count
      · rw [if_neg hlast, if_pos hin, if_pos (by omega)]
      · rw [if_neg hlast, if_neg hin, if_neg (by omega)]
    · rw [PermissionLedger.size_setRow, hwritten.size]
      omega
    · rw [PermissionLedger.header_setRow, hwritten.header]
    rw [List.range'_1_concat, List.map_append, writeAll_append, hstore]
    rfl

theorem memPool_eq (store : Store) : store.memPool =
      (List.range' store.memPoolStart store.memPool.length).map store.logRow := by
  apply List.ext_getElem
  · simp
  intro j hleft hright
  simp only [List.getElem_map, List.getElem_range', Nat.one_mul]
  exact (logRow_memPool hleft).symm

theorem zipIdx_memPool (store : Store) : (store.memPool.zipIdx store.memPoolStart).map
        (fun entry => DiskWrite.ledgerRow entry.2 entry.1) =
      (List.range' store.memPoolStart store.memPool.length).map
        fun i => .ledgerRow i (store.logRow i) := by
  apply List.ext_getElem
  · simp
  intro j hleft hright
  have hlt : j < store.memPool.length := by simpa using hright
  simp only [List.getElem_map, List.getElem_zipIdx, List.getElem_range', Nat.one_mul,
    logRow_memPool hlt]

end Store

/-- `new` is `old` with the batch entries of the rows `[start, stop)` of a log. -/
structure KeysWritten (row : ℕ → LedgerRow) (start stop : ℕ)
    (old new : PermissionDB) : Prop where
  lookup : ∀ key, new.rows.lookup key =
    if start ≤ newestRow row key stop then
      some ((row (newestRow row key stop)).toDBRow (row (newestRow row key stop)).thisRow)
    else old.rows.lookup key
  header : new.header = old.header
  listMarker : new.listMarker = old.listMarker
  list : ∀ entry, entry ∈ new.adminMinerList ↔ entry ∈ old.adminMinerList ∨
    ∃ i, start ≤ i ∧ i < stop ∧ isAdminMinerKey (row i).key = true ∧
      entry = ((row i).key.address, (row i).key.type)
  blockMiners : new.blockMiners = old.blockMiners
  grants : new.grants = old.grants

theorem commit_rowWrites (db : PermissionDB) (row : LedgerRow) : db.commit (Store.rowWrites row) =
      { db with
        rows := db.rows.insert row.key (row.toDBRow row.thisRow)
        adminMinerList :=
          if isAdminMinerKey row.key then
            {(row.key.address, row.key.type)} ∪ db.adminMinerList
          else db.adminMinerList } := by
  unfold Store.rowWrites
  split <;> rfl

theorem commit_flatMap_rowWrites (row : ℕ → LedgerRow) {start : ℕ} (hstart : 0 < start) :
    ∀ (count : ℕ) (db : PermissionDB), KeysWritten row start (start + count) db
      (db.commit ((List.range' start count).flatMap fun i => Store.rowWrites (row i))) := by
  intro count
  induction count with
  | zero =>
    intro db
    refine ⟨fun key => ?_, rfl, rfl, fun entry => ?_, rfl, rfl⟩
    · have hle := lastRow_le_pred (keyAt row) key (start + 0)
      rw [if_neg (by unfold newestRow; omega)]
      rfl
    constructor
    · exact .inl
    rintro (hmem | ⟨i, hge, hlt, _⟩)
    · exact hmem
    · omega
  | succ count ih =>
    intro db
    have hdb := ih db
    rw [List.range'_1_concat, List.flatMap_append, PermissionDB.commit_append,
      List.flatMap_singleton, commit_rowWrites]
    refine ⟨fun key => ?_, hdb.header, hdb.listMarker, fun entry => ?_, hdb.blockMiners, hdb.grants⟩
    · by_cases hkey : (row (start + count)).key = key
      · have hnewest : newestRow row key (start + (count + 1)) = start + count :=
          lastRow_succ_of_eq (n := start + count) (by omega) hkey
        rw [hnewest, if_pos (Nat.le_add_right _ _), ← hkey]
        exact Finmap.lookup_insert _
      have hnewest : newestRow row key (start + (count + 1)) = newestRow row key (start + count) :=
        lastRow_succ_of_ne (n := start + count) hkey
      rw [hnewest, ← hdb.lookup key]
      exact Finmap.lookup_insert_of_ne _ (Ne.symm hkey)
    have hlist : entry ∈ (if isAdminMinerKey (row (start + count)).key then
          {((row (start + count)).key.address, (row (start + count)).key.type)} ∪
            (db.commit ((List.range' start count).flatMap
              fun i => Store.rowWrites (row i))).adminMinerList
        else (db.commit ((List.range' start count).flatMap
              fun i => Store.rowWrites (row i))).adminMinerList) ↔
        (isAdminMinerKey (row (start + count)).key = true ∧
          entry = ((row (start + count)).key.address, (row (start + count)).key.type)) ∨
        entry ∈ (db.commit ((List.range' start count).flatMap
              fun i => Store.rowWrites (row i))).adminMinerList := by
      by_cases hadmin : isAdminMinerKey (row (start + count)).key = true
      · simp [hadmin]
      · simp [hadmin]
    refine hlist.trans ?_
    rw [hdb.list]
    constructor
    · rintro (⟨hadmin, hentry⟩ | hold | ⟨i, hge, hlt, hadmin, hentry⟩)
      · exact .inr ⟨start + count, by omega, by omega, hadmin, hentry⟩
      · exact .inl hold
      · exact .inr ⟨i, hge, by omega, hadmin, hentry⟩
    rintro (hold | ⟨i, hge, hlt, hadmin, hentry⟩)
    · exact .inr (.inl hold)
    by_cases hlast : i = start + count
    · subst hlast
      exact .inl ⟨hadmin, hentry⟩
    exact .inr (.inr ⟨i, hge, by omega, hadmin, hentry⟩)

/-- After the batch of a stretch the database indexes the log up to its end. -/
theorem KeysWritten.indexed {row : ℕ → LedgerRow} {start stop : ℕ}
    {old new : PermissionDB} (hwritten : KeysWritten row start stop old new)
    (hpos : 0 < start) (hle : start ≤ stop) (hindexed : Indexed old row start)
    (hthis : ∀ i, start ≤ i → i < stop → (row i).thisRow = i) : Indexed new row stop := by
  intro key htype
  rw [hwritten.lookup key]
  by_cases hnew : start ≤ newestRow row key stop
  · have hzero : newestRow row key stop ≠ 0 := by omega
    rw [if_pos hnew, hthis _ hnew (lastRow_lt hzero)]
    simp [Permission.indexed, indexAt, hzero]
  rw [if_neg hnew, hindexed key htype]
  have hsame : newestRow row key start = newestRow row key stop :=
    lastRow_eq_of_lt_of_le (not_le.mp hnew) hle
  simp only [Permission.indexed, indexAt, hsame]

end Amberchain.Permission

/-!
# Commit keeps the invariant

The rows of a block become part of the log with the two block rows behind them,
the database becomes the index of the longer log, and the counts written into
the block rows are those of the block.
-/

namespace Amberchain.Permission

open RowChain

namespace Store

variable {store : Store} (miner : Hash160) (hash : Hash256)

theorem addBlockRows_memPoolStart :
    (store.addBlockRows miner hash).memPoolStart = store.memPoolStart := by
  simp only [addBlockRows, memPoolStart, List.length_append, List.length_cons, List.length_nil]
  omega

/-- The log with the block rows at its end. -/
structure Filled (store filled : Store) (miner : Hash160) (hash : Hash256) : Prop where
  poolInv : PoolInv filled
  old : ∀ i, i < store.row → filled.logRow i = store.logRow i
  minerRow : filled.logRow store.row = store.minerRow miner hash
  indexRow : filled.logRow (store.row + 1) = store.indexRow miner hash

theorem Live.filled (hlive : Live store) :
    Filled store (store.addBlockRows miner hash) miner hash := by
  have hminer : (blockMinerKey miner).type ≠ MC_PTP_BLOCK_INDEX := by
    have hne : MC_PTP_BLOCK_MINER ≠ MC_PTP_BLOCK_INDEX := by decide
    exact hne
  let first : Store :=
    { store with
      memPool := store.memPool ++ [store.minerRow miner hash], row := store.row + 1 }
  have hfirst : Extends store (store.minerRow miner hash) first :=
    { memPool := rfl
      nextRow := rfl
      ledger := rfl
      block := rfl
      thisRow := rfl
      received := rfl
      prevRow := fun _ => (hlive.pool.rowAt hminer
        (hlive.showsBelow hminer)).thisRow }
  have hpool := hfirst.poolInv hlive.pool
  have hsecond : Extends first (store.indexRow miner hash) (store.addBlockRows miner hash) :=
    { memPool := by simp [first, addBlockRows]
      nextRow := rfl
      ledger := rfl
      block := rfl
      thisRow := rfl
      received := rfl
      prevRow := fun htype => absurd rfl htype }
  refine ⟨hsecond.poolInv hpool, fun i hlt => ?_, ?_, hsecond.logRow_row hpool.toPoolChain⟩
  · rw [hsecond.logRow_of_lt_row hpool.toPoolChain (by rw [hfirst.nextRow]; omega)]
    exact hfirst.logRow_of_lt_row hlive.pool.toPoolChain hlt
  rw [hsecond.logRow_of_lt_row hpool.toPoolChain (by rw [hfirst.nextRow]; omega)]
  exact hfirst.logRow_row hlive.pool.toPoolChain

/-- What the writes up to the database commit leave on disk. -/
structure BlockWritten (filled written : Store) : Prop where
  frame : written =
    { filled with db := written.db, ledger := written.ledger }
  getRow : ∀ i, written.ledger.getRow i =
    if i < filled.row then filled.logRow i else filled.ledger.getRow i
  size : written.ledger.size = max filled.ledger.size filled.row
  ledgerHeader : written.ledger.header = some ⟨filled.block + 1, filled.row⟩
  keys : KeysWritten filled.logRow filled.memPoolStart filled.row filled.db
    { written.db with header := filled.db.header }
  dbHeader : written.db.header = some ⟨filled.block + 1, filled.row⟩

/-- The writes of a block, for a mempool that starts where the file may be
extended. -/
theorem commitWrites_spec {filled : Store} (hpool : PoolInv filled)
    (hsize : filled.memPoolStart ≤ filled.ledger.size) :
    BlockWritten filled (filled.writeAll filled.commitWrites) := by
  have hend := hpool.start_add_length
  have hpos := hpool.start_pos
  obtain ⟨ledger, hrows, hstore⟩ :=
    writeAll_rows filled.logRow filled.memPoolStart filled.memPool.length filled hsize
  have hnonempty : 0 < ledger.size := by
    rw [hrows.size]
    omega
  have hwritten : filled.writeAll filled.commitWrites =
      { filled with
        db := filled.db.commit filled.commitBatch
        ledger := ledger.setHeader ⟨filled.block + 1, filled.row⟩ } := by
    rw [commitWrites, writeAll_append, zipIdx_memPool, hstore]
    rfl
  have hbatch : filled.commitBatch =
      (List.range' filled.memPoolStart filled.memPool.length).flatMap
        (fun i => rowWrites (filled.logRow i))
      ++ [.header ⟨filled.block + 1, filled.row⟩] := by
    have hmap : filled.memPool.flatMap rowWrites =
        ((List.range' filled.memPoolStart filled.memPool.length).map
          filled.logRow).flatMap rowWrites := by
      rw [← filled.memPool_eq]
    rw [commitBatch, hmap, List.flatMap_map]
  have hkeys := commit_flatMap_rowWrites filled.logRow hpos filled.memPool.length filled.db
  rw [hend] at hkeys
  rw [hwritten]
  constructor
  · rfl
  · intro i
    rw [ledger.getRow_setHeader hnonempty, hrows.getRow i]
    by_cases hbelow : i < filled.memPoolStart
    · rw [if_neg (by omega), if_pos (by omega), logRow_of_lt hbelow]
    by_cases hin : i < filled.row
    · rw [if_pos (by omega), if_pos hin]
    · rw [if_neg (by omega), if_neg hin]
  · rw [ledger.size_setHeader hnonempty, hrows.size, hend]
  · rfl
  · rw [hbatch, PermissionDB.commit_append]
    exact ⟨hkeys.lookup, rfl, hkeys.listMarker, hkeys.list, hkeys.blockMiners, hkeys.grants⟩
  rw [hbatch, PermissionDB.commit_append]
  rfl

theorem followMemPool_of_seek_none {memPool : List LedgerRow} {key : PermKey}
    {prevRow : ℕ} (hseek : seekMemPool memPool key prevRow = none) (fuel : ℕ) (row : LedgerRow) :
    followMemPool memPool key fuel row prevRow = row := by
  cases fuel with
  | zero => rfl
  | succ fuel => simp only [followMemPool, hseek]

/-- Lookups after the database commit: the rows of the block are read from the
database, although they still are in the mempool. -/
theorem BlockWritten.permissionRow {filled written : Store}
    (hwritten : BlockWritten filled written) (hpool : PoolInv filled)
    (hindexed : Indexed filled.db filled.logRow filled.memPoolStart)
    (hold : ∀ i, 0 < i → i < filled.memPoolStart → (filled.logRow i).thisRow = i)
    (hfork : filled.copiedRow = 0) (block : ℤ) {key : PermKey}
    (htype : key.type ≠ MC_PTP_BLOCK_INDEX) : RowAt filled.logRow key filled.row
      ((written.setBlock block).permissionRow key true) := by
  have hpos := hpool.start_pos
  have hend := hpool.start_add_length
  have hrows : ∀ i, 0 < i → i < filled.row →
      written.ledger.getRow i = filled.logRow i := fun i _ hlt => by
    rw [hwritten.getRow, if_pos hlt]
  have hthis : ∀ i, 0 < i → i < filled.row → (filled.logRow i).thisRow = i := by
    intro i hi hlt
    by_cases hbelow : i < filled.memPoolStart
    · exact hold i hi hbelow
    · exact hpool.thisRow i (not_lt.mp hbelow) hlt
  have hnew : Indexed written.db filled.logRow filled.row :=
    hwritten.keys.indexed hpos (by omega) hindexed
      fun i hge hlt => hpool.thisRow i hge hlt
  have hnewRows : Indexed written.db written.ledger.getRow filled.row := by
    intro other hother
    rw [hnew other hother]
    exact indexAt_congr other (fun i hi hlt => by rw [keyAt, keyAt, hrows i hi hlt])
      fun i hi hlt => by rw [hrows i hi hlt]
  let counted : Store := written.setBlock block
  have hcopied : counted.copiedRow = 0 := by
    show written.copiedRow = 0
    rw [hwritten.frame]
    exact hfork
  have hshows : counted.ShowsBelow key filled.row :=
    committedRow_spec hnewRows
      (fun i hi hlt => (congrArg LedgerRow.thisRow (hrows i hi hlt)).trans (hthis i hi hlt))
      htype (.inl hcopied)
  have hstart : RowAt filled.logRow key filled.row (counted.permissionRow key false) :=
    (permissionRow_committed hshows).congr hrows
  have hmemPool : counted.memPool = filled.memPool := by
    show written.memPool = _
    rw [hwritten.frame]
  have hrow : counted.permissionRow key true =
      followMemPool counted.memPool key counted.memPool.length
        (counted.permissionRow key false) (counted.permissionRow key false).thisRow :=
    rfl
  have hseek : seekMemPool counted.memPool key
      (counted.permissionRow key false).thisRow = none := by
    rw [hmemPool, hstart.thisRow]
    exact hpool.seekMemPool_newest htype
  rw [hrow, followMemPool_of_seek_none hseek]
  exact hstart

end Store

end Amberchain.Permission
