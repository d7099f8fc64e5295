import Amberchain.Permission.RollBackBlocks

/-!
# Crashes inside a commit or a rollback

Single row writes and database batches reach the disk whole and in program order.
A crash leaves the files after some of the writes, and `Initialize` opens them
again.
-/

namespace Amberchain.Permission

open RowChain

/-- An operation that moves whole blocks. -/
inductive BlockOp where
  | commit (miner : Hash160) (hash : Hash256)
  | rollBack (height : ℤ)

def BlockOp.toOp : BlockOp → Op
  | .commit miner hash => .commit miner hash
  | .rollBack height => .rollBack height

namespace Store

variable (params : ChainParams)

def recordWrites (store : Store) (miner : Hash160) (hash : Hash256) : List DiskWrite :=
  if keepsRecords params then
    [.dbCommit (store.grantBatch hash), .dbCommit [.blockMiner hash ⟨miner, store.adminMinerCount⟩]]
  else []

def commitTail (store : Store) (miner : Hash160) (hash : Hash256) : List DiskWrite :=
  (store.commitFiles miner hash).countCommitted.countWrites
    ++ recordWrites params { store.commitCounts miner hash with memPool := [] } miner hash

def diskTrace (store : Store) : BlockOp → List DiskWrite
  | .commit miner hash =>
    (store.addBlockRows miner hash).commitWrites ++ store.commitTail params miner hash
  | .rollBack height => store.clearMemPool.rollBackWrites height

/-- The files after the first `writes` disk writes of the operation. -/
def crashed (store : Store) (op : BlockOp) (writes : ℕ) : Store :=
  store.writeAll ((store.diskTrace params op).take writes)

/-- The store that `Initialize` opens after the crash. -/
def restarted (store : Store) (op : BlockOp) (writes : ℕ) : Store × Option McError :=
  initializeFrom (store.crashed params op writes).db (store.crashed params op writes).ledger

variable {store : Store}

theorem writeAll_files (store other : Store) (hdb : other.db = store.db) (hledger : other.ledger = store.ledger)
    (writes : List DiskWrite) : (other.writeAll writes).db = (store.writeAll writes).db ∧
      (other.writeAll writes).ledger = (store.writeAll writes).ledger := by
  induction writes generalizing store other with
  | nil => exact ⟨hdb, hledger⟩
  | cons write writes ih =>
    apply ih
    · cases write with
      | ledgerRow rowID row => exact hdb
      | ledgerHeader header => exact hdb
      | dbCommit batch => exact congrArg (fun db : PermissionDB => db.commit batch) hdb
    cases write with
    | ledgerRow rowID row =>
      exact congrArg (fun ledger : PermissionLedger => ledger.setRow rowID row) hledger
    | ledgerHeader header =>
      exact congrArg (fun ledger : PermissionLedger => ledger.setHeader header) hledger
    | dbCommit batch => exact hledger

end Store

end Amberchain.Permission

/-!
# Opening the store after a crash

Between the two header writes of an operation the ledger is ahead of the
database, and `Initialize` searches the end of the ledger again from the end of
the file.  It finds the right end exactly when no stale row behind it is too
old; at all other crash points it needs no search.
-/

namespace Amberchain.Permission

open RowChain

namespace Store

variable {store other : Store}

structure SameStore (store other : Store) : Prop where
  block : other.block = store.block
  row : other.row = store.row
  adminCount : other.adminCount = store.adminCount
  minerCount : other.minerCount = store.minerCount
  getPermission : ∀ key checkMempool,
    other.getPermission key checkMempool = store.getPermission key checkMempool

/-- Stores at rest over one database and one log, up to the counts in its
block-miner rows. -/
theorem AtRest.sameStore (hrest : AtRest store) (hother : AtRest other)
    (hblock : other.block = store.block) (hrow : other.row = store.row)
    (hrows : other.db.rows = store.db.rows)
    (hre : Recounted store.ledger.getRow other.ledger.getRow store.row) :
    SameStore store other := by
  have hnext : other.nextBlock = store.nextBlock := by
    rw [nextBlock, nextBlock, hblock]
  have hcount : ∀ type, countAt other.ledger.getRow type other.row other.nextBlock =
      countAt store.ledger.getRow type store.row store.nextBlock := by
    intro type
    rw [hrow, hnext]
    exact hre.countAt_eq type le_rfl _
  have hcommitted : ∀ key, other.committedRow key = store.committedRow key := by
    intro key
    unfold committedRow
    rw [hrows]
    cases hlookup : store.db.rows.lookup key with
    | none => rfl
    | some dbRow =>
      simp only [hrest.notForking, hother.notForking, lt_irrefl, false_and, if_false]
      by_cases hentity : key.entity = upgradeEntity
      · -- the row is read from the ledger, where no block-miner row has this key
        have hnull : key.entity ≠ nullEntity := by
          rw [hentity]
          decide
        have htype : key.type ≠ MC_PTP_BLOCK_INDEX := by
          intro htype
          have hnone := hrest.files.index.indexEntity key htype hnull
          rw [hlookup] at hnone
          cases hnone
        obtain ⟨hnewest, hvisible⟩ := hrest.files.index.rows.lookup_eq_some htype hlookup
        have hledgerRow := congrArg DBRow.ledgerRow hvisible
        simp only [visible_ledgerRow, LedgerRow.toDBRow] at hledgerRow
        have hkey : (store.ledger.getRow
            (newestRow store.ledger.getRow key store.row)).key = key := key_lastRow hnewest
        have heq := hre.eq_of_ne (Nat.pos_of_ne_zero hnewest) (lastRow_lt hnewest)
          fun address hminer => hnull (by
            rw [← hkey]
            exact congrArg PermKey.entity hminer)
        simp only [if_pos hentity, hledgerRow]
        rw [heq]
      · simp only [if_neg hentity]
  have hpermissionRow : ∀ key checkMempool,
      other.permissionRow key checkMempool = store.permissionRow key checkMempool := by
    intro key checkMempool
    unfold permissionRow
    rw [hcommitted, hrest.memPool, hother.memPool]
  constructor
  · exact hblock
  · exact hrow
  · rw [hother.admins, hrest.admins]
    exact hcount MC_PTP_ADMIN
  · rw [hother.miners, hrest.miners]
    exact hcount MC_PTP_MINE
  intro key checkMempool
  unfold getPermission
  rw [hpermissionRow, hnext]

/-- When the ledger header is ahead, the search decides: at the right end the
files open as if the header had never moved, at any other the store is reported
as corrupted. -/
theorem initializeFrom_repaired (db : PermissionDB) (ledger : PermissionLedger)
    {header ahead : Header} (hdb : db.header = some header)
    (hledger : ledger.header = some ahead) (hahead : header.block < ahead.block)
    (hsize : 0 < ledger.size) :
    if (zero db ledger).cutRow header.block (ledger.size - 1) = header.lastRow then
      initializeFrom db ledger = initializeFrom db (ledger.setHeader header)
    else (initializeFrom db ledger).2 = some .corrupted := by
  have hopen : (zero db ledger).openFiles = (zero db ledger, header, ahead) := by
    simp [openFiles, zero, hdb, hledger]
  have hopen' : (zero db (ledger.setHeader header)).openFiles =
      (zero db (ledger.setHeader header), header, header) := by
    simp [openFiles, zero, hdb]
  have hsize' : (ledger.setHeader header).size = ledger.size := ledger.size_setHeader hsize _
  have hzero : (zero db ledger).ledger.size = ledger.size := rfl
  have hzero' : (zero db (ledger.setHeader header)).ledger.size = ledger.size := hsize'
  unfold initializeFrom
  rw [hopen, hopen']
  simp only [if_pos hahead, repairLedger, hzero, hzero', lt_irrefl, if_false]
  by_cases hfound : (zero db ledger).cutRow header.block (ledger.size - 1) = header.lastRow
  · rw [if_pos hfound, hfound]
    rfl
  rw [if_neg hfound, if_pos (.inr (.inl (Ne.symm hfound)))]

/-- The search finds the end of the log exactly when all rows behind it are
newer than the database. -/
theorem cutRow_eq_iff (db : PermissionDB) (ledger : PermissionLedger) {block : ℤ}
    {base : ℕ} (hpos : 0 < base) (hsize : base ≤ ledger.size)
    (hunder : ∀ i, 0 < i → i < base → ((ledger.getRow i).blockReceived : ℤ) ≤ block) :
    (zero db ledger).cutRow block (ledger.size - 1) = base ↔
      ∀ i, base ≤ i → i < ledger.size → block < ((ledger.getRow i).blockReceived : ℤ) := by
  constructor
  · intro hcut i hge hlt
    exact of_decide_eq_true
      (over_of_cutAbove_le (le_of_eq_of_le hcut hge) (Nat.le_sub_one_of_lt hlt))
  intro hover
  refine cutAbove_eq hpos (fun hne => ?_) (ledger.size - 1) (by omega) fun i hi hle => ?_
  · have hbelow := hunder (base - 1) (by omega) (by omega)
    simp only [decide_eq_false_iff_not, not_lt]
    exact hbelow
  exact decide_eq_true (hover i hi (by omega))

/-- A write that stamps counts into one of the last two rows of a log, or that
records a verified block. -/
def IsTailWrite (row : ℕ → LedgerRow) (base : ℕ) : DiskWrite → Prop
  | .ledgerRow rowID value => base ≤ rowID + 2 ∧ rowID < base ∧
      ∃ adminCount minerCount, value = (row rowID).setCounts adminCount minerCount
  | .ledgerHeader _ => False
  | .dbCommit batch => ∀ entry ∈ batch, isRecordWrite entry = true

structure TailWritten (store written : Store) (base : ℕ) : Prop where
  records : RecordsAdded store.db written.db
  stamped : Restamped store.ledger.getRow written.ledger.getRow base
  header : written.ledger.header = store.ledger.header
  size : written.ledger.size = store.ledger.size

theorem writeAll_tail {row : ℕ → LedgerRow} {base : ℕ} :
    ∀ (writes : List DiskWrite) (store : Store), (∀ write ∈ writes, IsTailWrite row base write) →
      Restamped row store.ledger.getRow base → base ≤ store.ledger.size →
      TailWritten store (store.writeAll writes) base := by
  intro writes
  induction writes with
  | nil =>
    exact fun store _ _ _ => ⟨RecordsAdded.refl _, Restamped.of_eq fun _ _ _ => rfl, rfl, rfl⟩
  | cons write writes ih =>
    intro store hwrites hstamp hsize
    have htail := hwrites write (by simp)
    have hone : TailWritten store (store.writeDisk write) base := by
      cases write with
      | ledgerRow rowID value =>
        obtain ⟨hge, hlt, adminCount, minerCount, hvalue⟩ := htail
        refine ⟨RecordsAdded.refl _, ?_, rfl, ?_⟩
        · intro i hi hin
          have hget := store.ledger.getRow_setRow (show rowID ≤ store.ledger.size by omega)
            value i
          have hwritten : (store.writeDisk (.ledgerRow rowID value)).ledger.getRow i =
              if i = rowID then value else store.ledger.getRow i := hget
          rw [hwritten]
          by_cases hrow : i = rowID
          · obtain ⟨_, _, _, hnow⟩ := hstamp i hi hin
            refine ⟨fun hbefore => by omega, adminCount, minerCount, ?_⟩
            rw [if_pos hrow, hvalue, ← hrow, hnow]
            rfl
          rw [if_neg hrow]
          exact ⟨fun _ => rfl, (store.ledger.getRow i).consensus,
            (store.ledger.getRow i).flags, rfl⟩
        show max store.ledger.size (rowID + 1) = store.ledger.size
        omega
      | ledgerHeader header => exact htail.elim
      | dbCommit batch =>
        exact ⟨recordsAdded_commit batch store.db htail, Restamped.of_eq fun _ _ _ => rfl, rfl, rfl⟩
    have hrest := ih (store.writeDisk write)
      (fun other hother => hwrites other (by simp [hother])) (hstamp.trans hone.stamped)
      (by rw [hone.size]; exact hsize)
    exact ⟨hone.records.trans hrest.records, hone.stamped.trans hrest.stamped,
      hrest.header.trans hone.header, hrest.size.trans hone.size⟩

section Commit

variable (params : ChainParams) (miner : Hash160) (hash : Hash256)

theorem commitWrites_eq (filled : Store) : filled.commitWrites =
      ((List.range' filled.memPoolStart filled.memPool.length).map
        fun i => DiskWrite.ledgerRow i (filled.logRow i))
      ++ [.ledgerHeader ⟨filled.block + 1, filled.row⟩, .dbCommit filled.commitBatch] := by
  rw [commitWrites, zipIdx_memPool]

theorem Live.crashed_rows (hlive : Live store) {writes : ℕ}
    (hwrites : writes ≤ store.memPool.length + 2) :
    ∃ ledger, RowsWritten (store.addBlockRows miner hash).logRow store.memPoolStart writes
        store.ledger ledger ∧
      store.crashed params (.commit miner hash) writes = { store with ledger := ledger } := by
  have hlength : (store.addBlockRows miner hash).memPool.length = store.memPool.length + 2 := by
    simp [addBlockRows]
  obtain ⟨ledger, hrows, hstore⟩ := writeAll_rows (store.addBlockRows miner hash).logRow
    store.memPoolStart writes store hlive.files.size
  refine ⟨ledger, hrows, ?_⟩
  unfold crashed diskTrace
  dsimp only
  rw [commitWrites_eq, addBlockRows_memPoolStart, hlength, List.append_assoc,
    List.take_append_of_le_length (by simpa using hwrites), ← List.map_take,
    List.take_range'_of_length_ge hwrites]
  exact hstore

theorem Live.crashed_header (hlive : Live store) :
    ∃ ledger, RowsWritten (store.addBlockRows miner hash).logRow store.memPoolStart
        (store.memPool.length + 2) store.ledger ledger ∧
      store.crashed params (.commit miner hash) (store.memPool.length + 3) =
        { store with ledger := ledger.setHeader ⟨store.block + 1, store.row + 2⟩ } := by
  obtain ⟨ledger, hrows, hcrashed⟩ := hlive.crashed_rows params miner hash le_rfl
  have hlength : (store.addBlockRows miner hash).memPool.length = store.memPool.length + 2 := by
    simp [addBlockRows]
  refine ⟨ledger, hrows, ?_⟩
  have htrace : (store.diskTrace params (.commit miner hash)).take (store.memPool.length + 3) =
      (store.diskTrace params (.commit miner hash)).take (store.memPool.length + 2)
        ++ [.ledgerHeader ⟨store.block + 1, store.row + 2⟩] := by
    have hsplit : ∀ (rows rest : List DiskWrite) (header : DiskWrite),
        rows.length = store.memPool.length + 2 →
        (rows ++ header :: rest).take (store.memPool.length + 3) =
          (rows ++ header :: rest).take (store.memPool.length + 2) ++ [header] := by
      intro rows rest header hrows
      rw [List.take_left' hrows, List.take_append, List.take_of_length_le (by omega), hrows,
        show store.memPool.length + 3 - (store.memPool.length + 2) = 1 by omega]
      rfl
    unfold diskTrace
    dsimp only
    rw [commitWrites_eq, List.append_assoc]
    exact hsplit _ _ _ (by simp [hlength])
  unfold crashed at hcrashed ⊢
  rw [htrace, writeAll_append, hcrashed]
  rfl

theorem crashed_tail {writes : ℕ} (hwrites : store.memPool.length + 4 ≤ writes) :
    store.crashed params (.commit miner hash) writes =
      (store.writeAll (store.addBlockRows miner hash).commitWrites).writeAll
        ((store.commitTail params miner hash).take (writes - (store.memPool.length + 4))) := by
  have hlength : (store.addBlockRows miner hash).commitWrites.length =
      store.memPool.length + 4 := by
    rw [commitWrites_eq]
    simp [addBlockRows]
  unfold crashed diskTrace
  rw [List.take_append, List.take_of_length_le (by omega), writeAll_append, hlength]

end Commit

/-- Opening the files after the crash succeeds, and gives the store from before
the operation, its mempool dropped, or the store from after it. -/
def Recovers (params : ChainParams) (store : Store) (op : BlockOp) (writes : ℕ) : Prop :=
  (store.restarted params op writes).2 = none ∧
    (SameStore store.clearMemPool (store.restarted params op writes).1 ∨
      SameStore (store.apply params op.toOp) (store.restarted params op writes).1)

/-- Files that still hold the old blocks open as the old store. -/
theorem Live.recovers_before (hlive : Live store) (ledger : PermissionLedger)
    (hheader : ledger.header = store.ledger.header) (hsize : store.memPoolStart ≤ ledger.size)
    (hrows : ∀ i, 0 < i → i < store.memPoolStart → ledger.getRow i = store.ledger.getRow i) :
    (initializeFrom store.db ledger).2 = none ∧
      SameStore store.clearMemPool (initializeFrom store.db ledger).1 := by
  obtain ⟨minerCount, hclear⟩ := hlive.clearMemPool_eq
  have hopened := initializeFrom_restamped hlive.files (Restamped.of_eq hrows) hheader hsize
  refine ⟨hopened.noError, hlive.clearMemPool_atRest.sameStore hopened.atRest ?_ ?_ ?_ ?_⟩
  · rw [hopened.block, hclear]
  · rw [hopened.row, hclear]
  · rw [hopened.db, hclear]
  rw [hclear]
  exact hopened.recounted

/-- Files that hold the new block up to its counts open as the new store. -/
theorem Live.recovers_after_commit (hlive : Live store) (params : ChainParams)
    (miner : Hash160) (hash : Hash256) (hbound : store.block + 1 < 2 ^ 31) {writes : ℕ}
    (hwrites : store.memPool.length + 4 ≤ writes) :
    (store.restarted params (.commit miner hash) writes).2 = none ∧
      SameStore (store.commit params miner hash)
        (store.restarted params (.commit miner hash) writes).1 := by
  have hwritten := hlive.blockWritten miner hash
  have hstamped := hlive.blockStamped miner hash
  have hcounted := countCommitted_eq (hlive.countable miner hash) hwritten
  have hfiles := hlive.committed_stamped miner hash hbound hstamped
  let batched := store.writeAll (store.addBlockRows miner hash).commitWrites
  have hbatched : batched.db = (store.commitFiles miner hash).db ∧
      batched.ledger = (store.commitFiles miner hash).ledger :=
    writeAll_files (store.addBlockRows miner hash) store rfl rfl _
  have hbase : store.row + 2 ≤ batched.ledger.size := by
    rw [hbatched.2, hwritten.size]
    exact le_max_right _ _
  have hwrittenRow : (store.commitFiles miner hash).countCommitted.row = store.row + 2 := by
    rw [hcounted, hwritten.frame]
    rfl
  have hstamps : ∀ write ∈ (store.commitFiles miner hash).countCommitted.countWrites,
      IsTailWrite batched.ledger.getRow (store.row + 2) write := by
    intro write hwrite
    have hledger : (store.commitFiles miner hash).countCommitted.ledger = batched.ledger := by
      rw [hbatched.2, hcounted]
    unfold countWrites at hwrite
    rw [hledger] at hwrite
    obtain ⟨rowID, hrow, rfl⟩ := List.mem_map.mp hwrite
    simp only [List.mem_cons, List.not_mem_nil, or_false] at hrow
    refine ⟨by omega, by omega, _, _, rfl⟩
  have hrecords : ∀ write ∈ recordWrites params
      { store.commitCounts miner hash with memPool := [] } miner hash,
      IsTailWrite batched.ledger.getRow (store.row + 2) write := by
    intro write hwrite
    unfold recordWrites at hwrite
    split at hwrite
    · simp only [List.mem_cons, List.not_mem_nil, or_false] at hwrite
      rcases hwrite with rfl | rfl
      · exact isRecordWrite_grantBatch _ hash
      intro entry hentry
      rw [List.mem_singleton.mp hentry]
      rfl
    · cases hwrite
  have htail : ∀ write ∈ store.commitTail params miner hash,
      IsTailWrite batched.ledger.getRow (store.row + 2) write := by
    intro write hwrite
    rcases List.mem_append.mp hwrite with hstamp | hrecord
    · exact hstamps write hstamp
    · exact hrecords write hrecord
  -- the stamped ledger of the commit, and the ledger of the crash
  have hsame : Restamped batched.ledger.getRow batched.ledger.getRow (store.row + 2) :=
    Restamped.of_eq fun _ _ _ => rfl
  have hfull := writeAll_tail _ batched hstamps hsame hbase
  have hcrash := writeAll_tail ((store.commitTail params miner hash).take
      (writes - (store.memPool.length + 4))) batched
    (fun write hwrite => htail write (List.mem_of_mem_take hwrite)) hsame hbase
  rw [← crashed_tail params miner hash hwrites] at hcrash
  have hcounts : (batched.writeAll (store.commitFiles miner hash).countCommitted.countWrites).db =
        (store.commitCounts miner hash).db ∧
      (batched.writeAll (store.commitFiles miner hash).countCommitted.countWrites).ledger =
        (store.commitCounts miner hash).ledger := by
    refine writeAll_files (store.commitFiles miner hash).countCommitted batched ?_ ?_ _
    · rw [hbatched.1, hcounted]
    · rw [hbatched.2, hcounted]
  have hstampedDb : (store.commitCounts miner hash).db = batched.db := hcounts.1.symm
  have hfullStamp := hfull.stamped
  rw [hcounts.2] at hfullStamp
  have hcrashStamp : Restamped (store.commitCounts miner hash).ledger.getRow
      (store.crashed params (.commit miner hash) writes).ledger.getRow (store.row + 2) :=
    hfullStamp.symm.trans hcrash.stamped
  have hcrashFiles : Committed (store.crashed params (.commit miner hash) writes).db
      (store.commitCounts miner hash).ledger (store.block + 1) (store.row + 2) :=
    committed_of_records hfiles (hstampedDb ▸ hcrash.records)
  have hheader : (store.crashed params (.commit miner hash) writes).ledger.header =
      (store.commitCounts miner hash).ledger.header := by
    rw [hcrash.header, ← hfull.header, hcounts.2]
  have hopened := initializeFrom_restamped hcrashFiles hcrashStamp hheader
    (by rw [hcrash.size]; exact hbase)
  obtain ⟨blockMiners, hcommit⟩ := store.commit_eq params miner hash
  obtain ⟨hnewBlock, hnewRow⟩ := hlive.commit_block params miner hash
  refine ⟨hopened.noError, (hlive.commit_atRest params miner hash hbound).sameStore
    hopened.atRest ?_ ?_ ?_ ?_⟩
  · rw [hnewBlock]
    exact hopened.block
  · rw [hnewRow]
    exact hopened.row
  · rw [hcommit]
    rw [hstampedDb, ← hcrash.records.rows]
    exact congrArg PermissionDB.rows hopened.db
  rw [hnewRow, hcommit]
  exact hopened.recounted

/-- A crash between the header writes of a commit: the search for the end of the
ledger must not meet a stale row that is as old as the database. -/
theorem Live.recovers_header_iff (hlive : Live store) (params : ChainParams)
    (miner : Hash160) (hash : Hash256) :
    Recovers params store (.commit miner hash) (store.memPool.length + 3) ↔
      ∀ i, store.row + 2 ≤ i → i < store.ledger.size →
        store.block < ((store.ledger.getRow i).blockReceived : ℤ) := by
  obtain ⟨ledger, hrows, hcrashed⟩ := hlive.crashed_header params miner hash
  have hfilled := hlive.filled miner hash
  have hend := hlive.pool.start_add_length
  have hpos := hlive.files.log.pos
  have hledgerSize : 0 < ledger.size := by
    rw [hrows.size]
    omega
  let ahead : PermissionLedger := ledger.setHeader ⟨store.block + 1, store.row + 2⟩
  have haheadSize : ahead.size = max store.ledger.size (store.row + 2) := by
    have hset : ahead.size = ledger.size := ledger.size_setHeader hledgerSize _
    rw [hset, hrows.size]
    omega
  have haheadRow : ahead.getRow = ledger.getRow := ledger.getRow_setHeader hledgerSize _
  have hbelow : ∀ i, i < store.memPoolStart → ahead.getRow i = store.ledger.getRow i := by
    intro i hlt
    rw [haheadRow, hrows.getRow, if_neg (by omega)]
  have hrepair := initializeFrom_repaired store.db ahead hlive.files.dbHeader rfl
    (show store.block < store.block + 1 by omega) (by rw [haheadSize]; omega)
  have hfound := cutRow_eq_iff store.db ahead hpos
    (by rw [haheadSize]; omega) fun i hi hlt => by
      rw [hbelow i hlt]
      exact hlive.files.log.received_le i hi hlt
  -- the new rows are newer than the database, so only stale rows matter
  have hstale : (∀ i, store.memPoolStart ≤ i → i < ahead.size →
        store.block < ((ahead.getRow i).blockReceived : ℤ)) ↔
      ∀ i, store.row + 2 ≤ i → i < store.ledger.size →
        store.block < ((store.ledger.getRow i).blockReceived : ℤ) := by
    rw [haheadRow]
    constructor
    · intro hall i hi hlt
      have hrow := hall i (by omega) (by omega)
      rwa [hrows.getRow, if_neg (by omega)] at hrow
    intro hall i hi hlt
    rw [hrows.getRow]
    by_cases hnew : i < store.row + 2
    · rw [if_pos (by omega), hfilled.poolInv.received i
        (by rw [addBlockRows_memPoolStart]; exact hi) hnew]
      show store.block < ((store.block + 1).toNat : ℤ)
      omega
    rw [if_neg (by omega)]
    exact hall i (by omega) (by omega)
  rw [← hstale, ← hfound]
  unfold Recovers restarted
  rw [hcrashed]
  by_cases hcut : (zero store.db ahead).cutRow store.block (ahead.size - 1) = store.memPoolStart
  · rw [if_pos hcut] at hrepair
    refine iff_of_true ?_ hcut
    obtain ⟨hnone, hsame⟩ := hlive.recovers_before (ahead.setHeader ⟨store.block, store.memPoolStart⟩)
      hlive.files.ledgerHeader.symm
      (by rw [ahead.size_setHeader (by rw [haheadSize]; omega)]; omega)
      (fun i _ hlt => by
        rw [ahead.getRow_setHeader (by rw [haheadSize]; omega)]
        exact hbelow i hlt)
    rw [← hrepair] at hnone hsame
    exact ⟨hnone, .inl hsame⟩
  rw [if_neg hcut] at hrepair
  refine iff_of_false (fun hrecovers => ?_) hcut
  have hnone := hrecovers.1
  have hcorrupted : (initializeFrom store.db ahead).2 = none := hnone
  rw [hrepair] at hcorrupted
  cases hcorrupted

section RollBack

variable (params : ChainParams) {height : ℤ} {cut : ℕ}

theorem Live.diskTrace_rollBack (hlive : Live store)
    (hcut : Cut store.ledger.getRow store.memPoolStart height cut) :
    store.diskTrace params (.rollBack height) =
      [.dbCommit (store.undoWrites height (store.memPoolStart - 1)
        ++ [.header ⟨height, cut⟩]), .ledgerHeader ⟨height, cut⟩] := by
  obtain ⟨minerCount, hclear⟩ := hlive.clearMemPool_eq
  have hledger : store.clearMemPool.ledger = store.ledger := by rw [hclear]
  have hrow : store.clearMemPool.row = store.memPoolStart := by rw [hclear]
  have hcutRow : store.clearMemPool.cutRow height (store.memPoolStart - 1) = cut := by
    rw [hclear]
    exact hcut.cutRow_eq
  unfold diskTrace rollBackWrites
  dsimp only
  rw [hrow, hcutRow, undoWrites_of_ledger hledger]

/-- Files that hold the blocks up to the height of the rollback open as the store
after it. -/
theorem Live.recovers_rolledBack (hlive : Live store) (hge : -1 ≤ height)
    (hle : height ≤ store.block) (hrolled : RolledBack store (store.rollBack height) height cut)
    {ledger : PermissionLedger} (hledger : ledger = store.ledger.setHeader ⟨height, cut⟩) :
    (initializeFrom (store.rollBack height).db ledger).2 = none ∧ SameStore (store.rollBack height)
        (initializeFrom (store.rollBack height).db ledger).1 := by
  obtain ⟨hfiles, _⟩ := committed_undo hlive.files hge hle hrolled.isCut
  rw [← hrolled.db] at hfiles
  have hopened := initializeFrom_committed hfiles
  rw [← hledger] at hopened
  refine ⟨hopened.noError, hrolled.atRest.sameStore hopened.atRest ?_ ?_ ?_ ?_⟩
  · rw [hrolled.block]
    exact hopened.block
  · rw [hrolled.row]
    exact hopened.row
  · rw [hopened.db]
  rw [hrolled.row, hrolled.ledger, ← hledger]
  exact hopened.recounted

/-- A crash behind the batch of a rollback, before its ledger header. -/
theorem Live.recovers_batch_iff (hlive : Live store) (hge : -1 ≤ height)
    (hle : height ≤ store.block) : Recovers params store (.rollBack height) 1 ↔
      height = store.block ∨ ∀ i, store.memPoolStart ≤ i → i < store.ledger.size →
        height < ((store.ledger.getRow i).blockReceived : ℤ) := by
  obtain ⟨cut, hrolled⟩ := hlive.rollBack_spec hge hle
  have hcut := hrolled.isCut
  have hcrashed : store.crashed params (.rollBack height) 1 =
      { store with db := (store.rollBack height).db } := by
    unfold crashed
    rw [hlive.diskTrace_rollBack params hcut, hrolled.db]
    rfl
  have hsize := hlive.files.size
  have hpos := hlive.files.log.pos
  have hheader := hlive.files.ledgerHeader
  unfold Recovers restarted
  rw [hcrashed]
  by_cases hsame : height = store.block
  · -- the header of the ledger was right already
    refine iff_of_true ?_ (.inl hsame)
    have hend : Cut store.ledger.getRow store.memPoolStart height store.memPoolStart :=
      ⟨hpos, le_rfl, fun i hi hlt => hsame ▸ hlive.files.log.received_le i hi hlt,
        fun i hi hlt => by omega⟩
    have hset : store.ledger = store.ledger.setHeader ⟨height, cut⟩ := by
      rw [hcut.unique hend, hsame]
      exact (store.ledger.setHeader_self hheader (by omega)).symm
    obtain ⟨hnone, hstore⟩ := hlive.recovers_rolledBack hge hle hrolled hset
    exact ⟨hnone, .inr hstore⟩
  have hdb : (store.rollBack height).db.header = some ⟨height, cut⟩ := by
    rw [hrolled.db, PermissionDB.commit_append]
    rfl
  have hrepair := initializeFrom_repaired (store.rollBack height).db store.ledger hdb hheader
    (show height < store.block by omega) (by omega)
  have hfound := cutRow_eq_iff (store.rollBack height).db store.ledger hcut.pos
    (by have hbase := hcut.le_base; omega) hcut.under
  -- the rows that were rolled back are above the height
  have hstale : (∀ i, cut ≤ i → i < store.ledger.size →
        height < ((store.ledger.getRow i).blockReceived : ℤ)) ↔
      height = store.block ∨ ∀ i, store.memPoolStart ≤ i → i < store.ledger.size →
        height < ((store.ledger.getRow i).blockReceived : ℤ) := by
    rw [or_iff_right hsame]
    constructor
    · intro hall i hi hlt
      exact hall i (hcut.le_base.trans hi) hlt
    intro hall i hi hlt
    by_cases hin : i < store.memPoolStart
    · exact hcut.beyond i hi hin
    · exact hall i (not_lt.mp hin) hlt
  rw [← hstale, ← hfound]
  by_cases hcutRow : (zero (store.rollBack height).db store.ledger).cutRow height
      (store.ledger.size - 1) = cut
  · rw [if_pos hcutRow] at hrepair
    refine iff_of_true ?_ hcutRow
    obtain ⟨hnone, hstore⟩ := hlive.recovers_rolledBack hge hle hrolled rfl
    rw [← hrepair] at hnone hstore
    exact ⟨hnone, .inr hstore⟩
  rw [if_neg hcutRow] at hrepair
  refine iff_of_false (fun hrecovers => ?_) hcutRow
  have hnone : (initializeFrom (store.rollBack height).db store.ledger).2 = none := hrecovers.1
  rw [hrepair] at hnone
  cases hnone

theorem Live.recovers_after_rollBack (hlive : Live store) (hge : -1 ≤ height)
    (hle : height ≤ store.block) {writes : ℕ} (hwrites : 2 ≤ writes) :
    Recovers params store (.rollBack height) writes := by
  obtain ⟨cut, hrolled⟩ := hlive.rollBack_spec hge hle
  have hcrashed : store.crashed params (.rollBack height) writes =
      { store with
        db := (store.rollBack height).db
        ledger := store.ledger.setHeader ⟨height, cut⟩ } := by
    unfold crashed
    rw [hlive.diskTrace_rollBack params hrolled.isCut, hrolled.db,
      List.take_of_length_le (by simpa using hwrites)]
    rfl
  unfold Recovers restarted
  rw [hcrashed]
  obtain ⟨hnone, hstore⟩ := hlive.recovers_rolledBack hge hle hrolled rfl
  exact ⟨hnone, .inr hstore⟩

end RollBack

/-- The rows behind the live end do not mislead the search for the end of the
ledger.  The search runs after a crash between the two header writes only: behind
the ledger header of a commit, or behind the database batch of a rollback. -/
def EndFound (store : Store) (writes : ℕ) : BlockOp → Prop
  | .commit _ _ => writes = store.memPool.length + 3 →
      ∀ i, store.row + 2 ≤ i → i < store.ledger.size →
        store.block < ((store.ledger.getRow i).blockReceived : ℤ)
  | .rollBack height => writes = 1 → height < store.block →
      ∀ i, store.memPoolStart ≤ i → i < store.ledger.size →
        height < ((store.ledger.getRow i).blockReceived : ℤ)

/-- The store comes back after a crash exactly when the crash was not between the
header writes, or all rows of abandoned blocks behind the live end are newer than
the height that the database holds. -/
theorem crash_recovers_iff (params : ChainParams) (hreach : Reachable params store)
    (op : BlockOp) (hop : store.Allowed op.toOp) (writes : ℕ) :
    Recovers params store op writes ↔ store.EndFound writes op := by
  have hlive := hreach.live
  cases op with
  | commit miner hash =>
    by_cases hbetween : writes = store.memPool.length + 3
    · subst hbetween
      rw [hlive.recovers_header_iff params miner hash]
      exact ⟨fun hall _ => hall, fun hfound => hfound rfl⟩
    refine iff_of_true ?_ fun hwrites => absurd hwrites hbetween
    by_cases hrows : writes ≤ store.memPool.length + 2
    · obtain ⟨ledger, hwritten, hcrashed⟩ := hlive.crashed_rows params miner hash hrows
      have hbefore := hlive.recovers_before ledger hwritten.header
        (by rw [hwritten.size]; omega) fun i _ hlt => by
          rw [hwritten.getRow, if_neg (by omega)]
      unfold Recovers restarted
      rw [hcrashed]
      exact ⟨hbefore.1, .inl hbefore.2⟩
    obtain ⟨hnone, hstore⟩ := hlive.recovers_after_commit params miner hash hop
      (show store.memPool.length + 4 ≤ writes by omega)
    exact ⟨hnone, .inr hstore⟩
  | rollBack height =>
    obtain ⟨hge, hle⟩ := hop
    by_cases hbetween : writes = 1
    · subst hbetween
      rw [hlive.recovers_batch_iff params hge hle]
      constructor
      · rintro (hsame | hall) _ hlt
        · omega
        · exact hall
      intro hfound
      by_cases hsame : height = store.block
      · exact .inl hsame
      · exact .inr (hfound rfl (by omega))
    refine iff_of_true ?_ fun hwrites => absurd hwrites hbetween
    by_cases hzero : writes = 0
    · have hbefore := hlive.recovers_before store.ledger rfl hlive.files.size fun _ _ _ => rfl
      subst hzero
      exact ⟨hbefore.1, .inl hbefore.2⟩
    exact hlive.recovers_after_rollBack params hge hle (by omega)

theorem minedOnce_crash_recovers_iff : Recovers .defaults minedOnce (.commit firstMiner 2) 3 ↔
      minedOnce.EndFound 3 (.commit firstMiner 2) :=
  crash_recovers_iff .defaults minedOnce_reachable (.commit firstMiner 2)
    (by
      show minedOnce.block + 1 < 2 ^ 31
      decide +kernel) 3

def longBlock : Block where
  calls := [0x4e, 0x4f, 0x50, 0x51].map fun address =>
    .grant { secondMinerGrant with address := address }
  miner := firstMiner
  hash := 2

def shortBlock : Block where
  calls := []
  miner := firstMiner
  hash := 3

def reorganized : Store :=
  ((minedOnce.addBlock .defaults longBlock).rollBack 0).addBlock .defaults shortBlock

theorem reorganized_reachable : Reachable .defaults reorganized := by
  have hlong := minedOnce_reachable.addBlock (by decide +kernel) longBlock
  have hback := hlong.apply (.rollBack 0) (by
    show -1 ≤ 0 ∧ 0 ≤ (minedOnce.addBlock .defaults longBlock).block
    decide +kernel)
  exact hback.addBlock (by
    decide +kernel) shortBlock

/-- The next commit stops behind the ledger header.  The rows of the abandoned
block hide the end of the ledger, and the store does not open. -/
theorem crash_finds_stale_row :
    ¬ ∀ (params : ChainParams) (store : Store) (op : BlockOp) (writes : ℕ),
      Reachable params store → store.Allowed op.toOp → Recovers params store op writes := by
  intro hrecovers
  have hopened := (hrecovers .defaults reorganized (.commit firstMiner 4) 3
    reorganized_reachable (by
      show reorganized.block + 1 < 2 ^ 31
      decide +kernel)).1
  revert hopened
  decide +kernel

end Store

end Amberchain.Permission
