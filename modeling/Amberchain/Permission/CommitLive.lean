import Amberchain.Permission.BlockEnds

/-!
# The store after a commit

The counts of the new block are those of the log that ends with it, they are
written into both block rows, and the invariant holds at the new height.
-/

namespace Amberchain.Permission

open RowChain

namespace Store

variable (params : ChainParams) {store : Store} (miner : Hash160) (hash : Hash256)

/-- The admins or miners of the log that ends with the new block. -/
noncomputable def blockCount (filled : Store) (type : PermType) : BitVec 32 :=
  countAt filled.logRow type filled.row (filled.nextBlock + 1)

/-- The list covers the rows of the new block once they are committed. -/
theorem BlockWritten.list {filled written : Store} (hwritten : BlockWritten filled written)
    (hold : ∀ i, 0 < i → i < filled.memPoolStart → isAdminMinerKey (filled.logRow i).key = true →
      ((filled.logRow i).key.address, (filled.logRow i).key.type) ∈ filled.db.adminMinerList)
    {i : ℕ} (hi : 0 < i) (hlt : i < filled.row)
    (hadmin : isAdminMinerKey (filled.logRow i).key = true) :
    ((filled.logRow i).key.address, (filled.logRow i).key.type) ∈ written.db.adminMinerList := by
  refine (hwritten.keys.list _).mpr ?_
  by_cases hbelow : i < filled.memPoolStart
  · exact .inl (hold i hi hbelow hadmin)
  exact .inr ⟨i, not_lt.mp hbelow, hlt, hadmin, rfl⟩

theorem isAdminMinerKey_of_type {address : Hash160} {type : PermType}
    (htype : type = MC_PTP_ADMIN ∨ type = MC_PTP_MINE) :
    isAdminMinerKey ⟨nullEntity, address, type⟩ = true := by
  simpa [isAdminMinerKey] using htype

theorem ne_blockIndex_of_type {type : PermType} (htype : type = MC_PTP_ADMIN ∨ type = MC_PTP_MINE) :
    type ≠ MC_PTP_BLOCK_INDEX := by
  rcases htype with rfl | rfl <;> decide

theorem mem_list_of_newestRow {row : ℕ → LedgerRow} {base : ℕ} {list : Finset (Hash160 × PermType)}
    (hlist : ∀ i, 0 < i → i < base → isAdminMinerKey (row i).key = true →
      ((row i).key.address, (row i).key.type) ∈ list) {address : Hash160} {type : PermType}
    (htype : type = MC_PTP_ADMIN ∨ type = MC_PTP_MINE)
    (hrow : newestRow row ⟨nullEntity, address, type⟩ base ≠ 0) : (address, type) ∈ list := by
  have hkey : (row (newestRow row ⟨nullEntity, address, type⟩ base)).key =
      ⟨nullEntity, address, type⟩ := key_lastRow hrow
  have hmem := hlist _ (Nat.pos_of_ne_zero hrow) (lastRow_lt hrow)
    (by rw [hkey]; exact isAdminMinerKey_of_type htype)
  rwa [hkey] at hmem

structure Countable (filled : Store) : Prop where
  poolInv : PoolInv filled
  indexed : Indexed filled.db filled.logRow filled.memPoolStart
  thisRow : ∀ i, 0 < i → i < filled.memPoolStart → (filled.logRow i).thisRow = i
  list : ∀ i, 0 < i → i < filled.memPoolStart →
    isAdminMinerKey (filled.logRow i).key = true →
    ((filled.logRow i).key.address, (filled.logRow i).key.type)
      ∈ filled.db.adminMinerList
  listMarker : filled.db.listMarker = true
  notForking : filled.copiedRow = 0
  block_ge : -1 ≤ filled.block

theorem Live.countable (hlive : Live store) : Countable (store.addBlockRows miner hash) := by
  have hfilled := hlive.filled miner hash
  have hstart : (store.addBlockRows miner hash).memPoolStart = store.memPoolStart :=
    addBlockRows_memPoolStart miner hash
  have hend := hlive.pool.start_add_length
  have hold : ∀ i, i < store.memPoolStart →
      (store.addBlockRows miner hash).logRow i = store.ledger.getRow i := fun i hlt => by
    rw [hfilled.old i (by omega), logRow_of_lt hlt]
  refine ⟨hfilled.poolInv, ?_, ?_, ?_, hlive.files.index.listMarker, hlive.notForking,
    hlive.files.block_ge⟩
  · rw [hstart]
    intro key htype
    refine (hlive.files.index.rows key htype).trans ?_
    exact indexAt_congr key (fun i _ hlt => by rw [keyAt, keyAt, hold i hlt])
      fun i _ hlt => by rw [hold i hlt]
  · intro i hi hlt
    rw [hstart] at hlt
    rw [hold i hlt]
    exact hlive.files.log.thisRow i hi hlt
  intro i hi hlt hadmin
  rw [hstart] at hlt
  rw [hold i hlt] at hadmin ⊢
  exact hlive.files.index.list i hi hlt hadmin

theorem nextBlock_succ {filled : Store} (hge : -1 ≤ filled.block) :
    (filled.block + 1 + 1).toNat = filled.nextBlock + 1 := by
  unfold nextBlock
  omega

/-- `UpdateCounts` at the new height counts the log with the block. -/
theorem countCommitted_eq {filled written : Store}
    (hcount : Countable filled) (hwritten : BlockWritten filled written) : written.countCommitted =
      { written with
        adminCount := blockCount filled MC_PTP_ADMIN
        minerCount := blockCount filled MC_PTP_MINE
        clearedAdminCount := blockCount filled MC_PTP_ADMIN
        clearedMinerCount := blockCount filled MC_PTP_MINE
        clearedMinerCountForMinerVerification := blockCount filled MC_PTP_MINE } := by
  have hblock : written.block = filled.block := by rw [hwritten.frame]
  have hcopied : written.copiedRow = 0 := by
    rw [hwritten.frame]
    exact hcount.notForking
  have hmarker : written.db.listMarker = true := hwritten.keys.listMarker.trans hcount.listMarker
  have hnext : (written.setBlock (written.block + 1)).nextBlock =
      filled.nextBlock + 1 := by
    rw [← nextBlock_succ hcount.block_ge, ← hblock]
    rfl
  unfold countCommitted
  rw [updateCounts_eq (written.setBlock (written.block + 1)) filled.logRow
    filled.row hmarker hcopied
    (fun address type htype => hwritten.permissionRow hcount.poolInv hcount.indexed
      hcount.thisRow hcount.notForking _ (ne_blockIndex_of_type htype))
    (fun address type htype hrow => mem_list_of_newestRow
      (fun i hi hlt hadmin => hwritten.list hcount.list hi hlt hadmin) htype hrow), hnext]
  rfl

/-- Writing the counts changes the last two rows and nothing else. -/
theorem countWrites_spec (counted : Store) (hrow : 2 ≤ counted.row)
    (hsize : counted.row ≤ counted.ledger.size) : ∃ ledger : PermissionLedger,
      counted.writeAll counted.countWrites = { counted with ledger := ledger } ∧
      ledger.size = counted.ledger.size ∧ ledger.header = counted.ledger.header ∧
      ∀ i, ledger.getRow i =
        if counted.row - 2 ≤ i ∧ i < counted.row then
          (counted.ledger.getRow i).setCounts counted.adminCount counted.minerCount
        else counted.ledger.getRow i := by
  let stamp (i : ℕ) : LedgerRow :=
    (counted.ledger.getRow i).setCounts counted.adminCount counted.minerCount
  let first := counted.ledger.setRow (counted.row - 2) (stamp (counted.row - 2))
  have hfirst : first.size = counted.ledger.size := by
    simp only [first, PermissionLedger.size_setRow]
    omega
  refine ⟨first.setRow (counted.row - 1) (stamp (counted.row - 1)), rfl, ?_, rfl, ?_⟩
  · rw [PermissionLedger.size_setRow]
    omega
  intro i
  rw [first.getRow_setRow (by omega), counted.ledger.getRow_setRow (by omega)]
  by_cases hlast : i = counted.row - 1
  · rw [if_pos hlast, if_pos (by omega), hlast]
  by_cases hbefore : i = counted.row - 2
  · rw [if_neg hlast, if_pos hbefore, if_pos (by omega), hbefore]
  rw [if_neg hlast, if_neg hbefore, if_neg (by omega)]

/-- The rows of the log with the counts stamped into the last two. -/
noncomputable def stampedRow (filled : Store) (i : ℕ) : LedgerRow :=
  if filled.row - 2 ≤ i then
    (filled.logRow i).setCounts (blockCount filled MC_PTP_ADMIN)
      (blockCount filled MC_PTP_MINE)
  else filled.logRow i

theorem stampedRow_of_lt {filled : Store} {i : ℕ} (hlt : i < filled.row - 2) :
    stampedRow filled i = filled.logRow i :=
  if_neg (not_le.mpr hlt)

@[simp]
theorem stampedRow_key (filled : Store) (i : ℕ) :
    (stampedRow filled i).key = (filled.logRow i).key := by
  unfold stampedRow
  split <;> rfl

@[simp]
theorem stampedRow_prevRow (filled : Store) (i : ℕ) :
    (stampedRow filled i).prevRow = (filled.logRow i).prevRow := by
  unfold stampedRow
  split <;> rfl

@[simp]
theorem stampedRow_blockFrom (filled : Store) (i : ℕ) :
    (stampedRow filled i).blockFrom = (filled.logRow i).blockFrom := by
  unfold stampedRow
  split <;> rfl

@[simp]
theorem stampedRow_blockTo (filled : Store) (i : ℕ) :
    (stampedRow filled i).blockTo = (filled.logRow i).blockTo := by
  unfold stampedRow
  split <;> rfl

@[simp]
theorem stampedRow_blockReceived (filled : Store) (i : ℕ) :
    (stampedRow filled i).blockReceived = (filled.logRow i).blockReceived := by
  unfold stampedRow
  split <;> rfl

@[simp]
theorem stampedRow_thisRow (filled : Store) (i : ℕ) :
    (stampedRow filled i).thisRow = (filled.logRow i).thisRow := by
  unfold stampedRow
  split <;> rfl

theorem countAt_stampedRow (filled : Store) (type : PermType) (base next : ℕ) :
    countAt (stampedRow filled) type base next = countAt filled.logRow type base next :=
  countAt_congr type next (fun i _ _ => stampedRow_key filled i)
    (fun i _ _ => stampedRow_blockFrom filled i) fun i _ _ => stampedRow_blockTo filled i

/-- The store after `CommitInternal` has stamped the counts. -/
structure BlockStamped (filled stamped : Store) : Prop where
  frame : stamped =
    { filled with
      db := stamped.db
      ledger := stamped.ledger
      adminCount := blockCount filled MC_PTP_ADMIN
      minerCount := blockCount filled MC_PTP_MINE
      clearedAdminCount := blockCount filled MC_PTP_ADMIN
      clearedMinerCount := blockCount filled MC_PTP_MINE
      clearedMinerCountForMinerVerification := blockCount filled MC_PTP_MINE }
  getRow : ∀ i, stamped.ledger.getRow i =
    if i < filled.row then stampedRow filled i else filled.ledger.getRow i
  size : stamped.ledger.size = max filled.ledger.size filled.row
  ledgerHeader : stamped.ledger.header = some ⟨filled.block + 1, filled.row⟩
  keys : KeysWritten filled.logRow filled.memPoolStart filled.row filled.db
    { stamped.db with header := filled.db.header }
  dbHeader : stamped.db.header = some ⟨filled.block + 1, filled.row⟩

theorem BlockWritten.stamped {filled written : Store}
    (hcount : Countable filled) (hwritten : BlockWritten filled written) (hrow : 2 ≤ filled.row) :
    BlockStamped filled (written.countCommitted.writeAll written.countCommitted.countWrites) := by
  rw [countCommitted_eq hcount hwritten]
  have hwrittenRow : written.row = filled.row := by rw [hwritten.frame]
  obtain ⟨ledger, hledger, hsize, hheader, hget⟩ := countWrites_spec
    { written with
      adminCount := blockCount filled MC_PTP_ADMIN
      minerCount := blockCount filled MC_PTP_MINE
      clearedAdminCount := blockCount filled MC_PTP_ADMIN
      clearedMinerCount := blockCount filled MC_PTP_MINE
      clearedMinerCountForMinerVerification := blockCount filled MC_PTP_MINE }
    (by rw [← hwrittenRow] at hrow; exact hrow)
    (by
      rw [hwrittenRow, hwritten.size]
      exact le_max_right _ _)
  rw [hledger]
  constructor
  · rw [hwritten.frame]
  · intro i
    refine (hget i).trans ?_
    simp only [hwritten.getRow, hwrittenRow, stampedRow]
    by_cases hin : i < filled.row
    · simp [hin]
    · simp [hin]
  · exact hsize.trans hwritten.size
  · exact hheader.trans hwritten.ledgerHeader
  · exact hwritten.keys
  exact hwritten.dbHeader

section NewHeight

variable (hlive : Live store)

include hlive

theorem Live.logRow_below {i : ℕ} (hlt : i < store.memPoolStart) :
    (store.addBlockRows miner hash).logRow i = store.ledger.getRow i := by
  have hend := hlive.pool.start_add_length
  rw [(hlive.filled miner hash).old i (by omega), logRow_of_lt hlt]

/-- The longer log, with the counts in its block rows. -/
theorem Live.logInv_stamped : LogInv (stampedRow (store.addBlockRows miner hash)) (store.block + 1)
      (store.row + 2) := by
  have hfilled := hlive.filled miner hash
  have hstart : (store.addBlockRows miner hash).memPoolStart = store.memPoolStart :=
    addBlockRows_memPoolStart miner hash
  have hend := hlive.pool.start_add_length
  have hlast : (store.addBlockRows miner hash).row = store.row + 2 := rfl
  have hstamp : ∀ i, i < store.row → stampedRow (store.addBlockRows miner hash) i =
      (store.addBlockRows miner hash).logRow i := fun i hlt => stampedRow_of_lt hlt
  refine hlive.files.log.addBlock hlive.files.block_ge (by omega) ?_ ?_ ?_ ?_ ?_ ?_ ?_
    ?_ ?_
  · intro i _ hlt
    rw [hstamp i (by omega), hlive.logRow_below miner hash hlt]
  · intro i hge hlt
    rw [stampedRow_thisRow]
    exact hfilled.poolInv.thisRow i (by omega) hlt
  · intro i hge hlt
    rw [stampedRow_blockReceived]
    exact hfilled.poolInv.received i (by omega) hlt
  · intro key htype
    exact (hfilled.poolInv.linked key htype).congr
      (fun i _ _ => (stampedRow_key _ i).symm) fun i _ _ => (stampedRow_prevRow _ i).symm
  · intro i hge hlt
    rw [stampedRow_key]
    by_cases hminer : i = store.row
    · rw [hminer, hfilled.minerRow]
      have hne : MC_PTP_BLOCK_MINER ≠ MC_PTP_BLOCK_INDEX := by decide
      exact hne
    have hpool : i - store.memPoolStart < store.memPool.length := by omega
    rw [hfilled.old i (by omega)]
    have hrow := logRow_memPool hpool
    rw [Nat.add_sub_cancel' hge] at hrow
    have hgrant := hlive.grantType _ (List.getElem_mem hpool)
    rw [← hrow] at hgrant
    simp only [isGrantType, decide_eq_true_eq] at hgrant
    exact hgrant.2
  · rw [stampedRow_key, Nat.add_sub_cancel, hfilled.minerRow]
    exact ⟨miner, rfl⟩
  · rw [stampedRow_key, show store.row + 2 - 1 = store.row + 1 from rfl, hfilled.indexRow]
    rfl
  · rw [countAt_stampedRow, stampedRow, if_pos (by omega)]
    rfl
  rw [countAt_stampedRow, stampedRow, if_pos (by omega)]
  rfl

theorem Live.indexed_stamped {key : PermKey} (htype : key.type ≠ MC_PTP_BLOCK_INDEX) :
    indexed (store.addBlockRows miner hash).logRow key (store.row + 2) =
      indexed (stampedRow (store.addBlockRows miner hash)) key (store.row + 2) := by
  have hfilled := hlive.filled miner hash
  have hnewest : lastRow (keyAt (stampedRow (store.addBlockRows miner hash))) key (store.row + 2) =
      lastRow (keyAt (store.addBlockRows miner hash).logRow) key (store.row + 2) :=
    newestRow_congr key fun i _ _ => stampedRow_key _ i
  unfold indexed indexAt
  rw [hnewest]
  by_cases hnone : lastRow (keyAt (store.addBlockRows miner hash).logRow) key (store.row + 2) = 0
  · rw [if_pos hnone, if_pos hnone]
  have hkey := key_lastRow hnone
  have hlt := lastRow_lt hnone
  generalize lastRow (keyAt (store.addBlockRows miner hash).logRow) key
    (store.row + 2) = last at hkey hlt ⊢
  unfold keyAt at hkey
  by_cases hold : last < store.row
  · have hstamp : last < (store.addBlockRows miner hash).row - 2 := hold
    simp only [stampedRow_of_lt hstamp]
  by_cases hminer : last = store.row
  · -- a block-miner row: only the hidden flags differ
    subst hminer
    rw [hfilled.minerRow] at hkey
    have hkeyType : key.type = MC_PTP_BLOCK_MINER := by
      rw [← hkey]
      rfl
    simp only [visible, hkeyType, if_true, LedgerRow.toDBRow, stampedRow_blockFrom,
      stampedRow_blockTo]
  have hindex : last = store.row + 1 := by omega
  subst hindex
  rw [hfilled.indexRow] at hkey
  exact absurd (by rw [← hkey]; rfl) htype

theorem Live.lookup_newIndex {stamped : Store}
    (hstamped : BlockStamped (store.addBlockRows miner hash) stamped) :
    stamped.db.rows.lookup (blockIndexKey store.nextBlock) =
      some ((store.indexRow miner hash).toDBRow (store.row + 1)) := by
  have hfilled := hlive.filled miner hash
  have hstart : (store.addBlockRows miner hash).memPoolStart = store.memPoolStart :=
    addBlockRows_memPoolStart miner hash
  have hend := hlive.pool.start_add_length
  have hlookup := hstamped.keys.lookup (blockIndexKey store.nextBlock)
  rw [show (store.addBlockRows miner hash).row = store.row + 2 from rfl] at hlookup
  have hnewest : newestRow (store.addBlockRows miner hash).logRow
      (blockIndexKey store.nextBlock) (store.row + 2) = store.row + 1 := by
    refine lastRow_succ_of_eq (n := store.row + 1) (by omega) ?_
    rw [keyAt, hfilled.indexRow]
    rfl
  rw [hnewest, if_pos (by omega)] at hlookup
  refine hlookup.trans ?_
  rw [hfilled.indexRow]
  rfl

/-- The block-index keys of other heights keep their database rows. -/
theorem Live.lookup_otherIndex (hbound : store.block + 1 < 2 ^ 31) {stamped : Store}
    (hstamped : BlockStamped (store.addBlockRows miner hash) stamped) {height : ℕ}
    (hheight : height < 2 ^ 32) (hother : height ≠ store.nextBlock) :
    stamped.db.rows.lookup (blockIndexKey height) =
      store.db.rows.lookup (blockIndexKey height) := by
  have hfilled := hlive.filled miner hash
  have hstart : (store.addBlockRows miner hash).memPoolStart = store.memPoolStart :=
    addBlockRows_memPoolStart miner hash
  have hnext : store.nextBlock = (store.block + 1).toNat := rfl
  have hlookup := hstamped.keys.lookup (blockIndexKey height)
  rw [show (store.addBlockRows miner hash).row = store.row + 2 from rfl, hstart] at hlookup
  have hbelow : ¬ store.memPoolStart ≤
      newestRow (store.addBlockRows miner hash).logRow (blockIndexKey height)
        (store.row + 2) := by
    intro hin
    have hnonzero : newestRow (store.addBlockRows miner hash).logRow
        (blockIndexKey height) (store.row + 2) ≠ 0 := by
      have := hlive.pool.start_pos
      omega
    have hkey := key_lastRow hnonzero
    have hlt := lastRow_lt hnonzero
    rw [keyAt, ← stampedRow_key] at hkey
    have hindexKey := (hlive.logInv_stamped miner hash).indexKey _
      (Nat.pos_of_ne_zero hnonzero) hlt (by rw [hkey]; rfl)
    rw [hkey, stampedRow_blockReceived,
      hfilled.poolInv.received _ (by rw [hstart]; exact hin) hlt] at hindexKey
    have hheights := blockIndexKey_inj hheight (by show store.nextBlock < 2 ^ 32; omega) hindexKey
    exact hother hheights
  rw [if_neg hbelow] at hlookup
  exact hlookup

theorem Live.blockEnd_stamped {height last : ℕ}
    (hblockEnd : BlockEnd store.ledger.getRow store.memPoolStart height last)
    (hheight : (height : ℤ) ≤ store.block) :
    BlockEnd (stampedRow (store.addBlockRows miner hash)) (store.row + 2) height last := by
  have hfilled := hlive.filled miner hash
  have hstart : (store.addBlockRows miner hash).memPoolStart = store.memPoolStart :=
    addBlockRows_memPoolStart miner hash
  have hend := hlive.pool.start_add_length
  have hnext : store.nextBlock = (store.block + 1).toNat := rfl
  have hle := hblockEnd.le_base
  refine hblockEnd.congr (by omega) (fun i hi hlt => ?_) fun i hi hlt => ?_
  · rw [stampedRow_of_lt (by
      show i < store.row + 2 - 2
      omega), hlive.logRow_below miner hash (by omega)]
  rw [stampedRow_blockReceived]
  by_cases hbelow : i < store.memPoolStart
  · rw [hlive.logRow_below miner hash hbelow]
    exact hblockEnd.beyond i hi hbelow
  rw [hfilled.poolInv.received i (by omega) hlt]
  show height < store.nextBlock
  omega

theorem Live.blockEnd_new :
    BlockEnd (stampedRow (store.addBlockRows miner hash)) (store.row + 2) store.nextBlock
      (store.row + 2) := by
  exact ((hlive.logInv_stamped miner hash).blockEnd_base (by omega)).2

/-- The block-index rows of all heights are indexed, the new one included. -/
theorem Live.blockIndex_stamped (hbound : store.block + 1 < 2 ^ 31) {stamped : Store}
    (hstamped : BlockStamped (store.addBlockRows miner hash) stamped)
    {height last : ℕ} (hheight : (height : ℤ) ≤ store.block + 1)
    (hblockEnd : BlockEnd (stampedRow (store.addBlockRows miner hash)) (store.row + 2)
      height last) : ∃ dbRow, stamped.db.rows.lookup (blockIndexKey height) = some dbRow ∧
      dbRow.ledgerRow = last - 1 := by
  have hnext : store.nextBlock = (store.block + 1).toNat := rfl
  by_cases hnew : height = store.nextBlock
  · subst hnew
    have hlast : last = store.row + 2 := hblockEnd.unique (hlive.blockEnd_new miner hash)
    exact ⟨_, hlive.lookup_newIndex miner hash hstamped, by rw [hlast]; rfl⟩
  have hold : (height : ℤ) ≤ store.block := by omega
  obtain ⟨oldLast, holdEnd⟩ := hlive.files.log.ends height hold
  have hlast : last = oldLast := hblockEnd.unique (hlive.blockEnd_stamped miner hash holdEnd hold)
  obtain ⟨dbRow, hdbRow, hledgerRow⟩ := hlive.files.index.blockIndex height oldLast hold holdEnd
  have hlookup := hlive.lookup_otherIndex miner hash hbound hstamped (by omega) hnew
  exact ⟨dbRow, hlookup.trans hdbRow, by rw [hledgerRow, hlast]⟩

/-- The files after the commit hold one more block. -/
theorem Live.committed_stamped (hbound : store.block + 1 < 2 ^ 31) {stamped : Store}
    (hstamped : BlockStamped (store.addBlockRows miner hash) stamped) :
    Committed stamped.db stamped.ledger (store.block + 1) (store.row + 2) := by
  have hcount := hlive.countable miner hash
  have hge := hlive.files.block_ge
  have hrows : ∀ i, 0 < i → i < store.row + 2 →
      stampedRow (store.addBlockRows miner hash) i = stamped.ledger.getRow i := by
    intro i _ hlt
    rw [hstamped.getRow, if_pos (by exact hlt)]
  have hlog := hlive.logInv_stamped miner hash
  have hend : (store.addBlockRows miner hash).memPoolStart ≤ store.row + 2 := by
    exact Nat.sub_le _ _
  have hindexed : Indexed stamped.db (store.addBlockRows miner hash).logRow (store.row + 2) :=
    hstamped.keys.indexed hcount.poolInv.start_pos hend hcount.indexed
      fun i hi hlt => hcount.poolInv.thisRow i hi hlt
  have hback : ∀ i, 0 < i → i < store.row + 2 → stamped.ledger.getRow i =
      stampedRow (store.addBlockRows miner hash) i :=
    fun i hi hlt => (hrows i hi hlt).symm
  refine ⟨hstamped.dbHeader, hstamped.ledgerHeader, ?_, by omega, hbound,
    hlog.congr hrows, ⟨?_, ?_, ?_, ?_, ?_⟩⟩
  · rw [hstamped.size]
    exact le_max_right _ _
  · intro key htype
    rw [hindexed key htype, hlive.indexed_stamped miner hash htype]
    exact indexAt_congr key (fun i hi hlt => by rw [keyAt, keyAt, hrows i hi hlt])
      fun i hi hlt => by rw [hrows i hi hlt]
  · intro height last hheight hblockEnd
    refine hlive.blockIndex_stamped miner hash hbound hstamped hheight
      (hblockEnd.congr hblockEnd.le_base (fun i hi hlt => ?_) fun i hi hlt => ?_)
    · exact hback i hi (hlt.trans_le hblockEnd.le_base)
    have := hblockEnd.two_lt
    rw [← hback i (by omega) hlt]
    exact hblockEnd.beyond i hi hlt
  · intro key htype hentity
    refine (hstamped.keys.lookup key).trans ?_
    by_cases hnew : (store.addBlockRows miner hash).memPoolStart ≤
        newestRow (store.addBlockRows miner hash).logRow key
          (store.addBlockRows miner hash).row
    · -- a new index row would be the one of the block
      have hnonzero : newestRow (store.addBlockRows miner hash).logRow key
          (store.addBlockRows miner hash).row ≠ 0 := by
        have := hcount.poolInv.start_pos
        omega
      have hkey := key_lastRow hnonzero
      have hlt := lastRow_lt hnonzero
      rw [keyAt, ← stampedRow_key] at hkey
      have hindexKey := hlog.indexKey _ (Nat.pos_of_ne_zero hnonzero) hlt
        (by rw [hkey]; exact htype)
      rw [hkey] at hindexKey
      exact absurd (congrArg PermKey.entity hindexKey) hentity
    rw [if_neg hnew]
    exact hlive.files.index.indexEntity key htype hentity
  · exact hstamped.keys.listMarker.trans hcount.listMarker
  intro i hi hlt hadmin
  rw [hback i hi hlt, stampedRow_key] at hadmin ⊢
  refine (hstamped.keys.list _).mpr ?_
  by_cases hbelow : i < (store.addBlockRows miner hash).memPoolStart
  · exact .inl (hcount.list i hi hbelow hadmin)
  exact .inr ⟨i, not_lt.mp hbelow, hlt, hadmin, rfl⟩

end NewHeight

structure AtRest (store : Store) : Prop where
  files : Committed store.db store.ledger store.block store.row
  memPool : store.memPool = []
  notForking : store.copiedRow = 0
  admins : store.adminCount =
    countAt store.ledger.getRow MC_PTP_ADMIN store.row store.nextBlock
  miners : store.minerCount =
    countAt store.ledger.getRow MC_PTP_MINE store.row store.nextBlock
  clearedAdmins : store.clearedAdminCount = store.adminCount
  clearedMiners : store.clearedMinerCount = store.minerCount

theorem memPoolStart_of_empty (hempty : store.memPool = []) : store.memPoolStart = store.row := by
  simp [memPoolStart, hempty]

theorem AtRest.live (hrest : AtRest store) : Live store := by
  have hstart := memPoolStart_of_empty hrest.memPool
  have hlog : ∀ i, i < store.row → store.ledger.getRow i = store.logRow i :=
    fun i hlt => (logRow_of_lt (by rwa [hstart])).symm
  refine ⟨?_, ⟨⟨?_, ?_, ?_⟩, ?_⟩, ?_, hrest.notForking, ?_, ?_, ?_⟩
  · rw [hstart]
    exact hrest.files
  · rw [hrest.memPool]
    exact hrest.files.log.pos
  · intro i hge hlt
    omega
  · exact fun key htype => (hrest.files.log.linked key htype).congr
      (fun i _ hlt => by rw [keyAt, keyAt, hlog i hlt])
      fun i _ hlt => by rw [prevAt, prevAt, hlog i hlt]
  · intro i hge hlt
    omega
  · intro row hmem
    rw [hrest.memPool] at hmem
    cases hmem
  · rw [hrest.clearedAdmins, hrest.admins, hstart]
  · rw [hrest.clearedMiners, hrest.miners, hstart]
  exact fun _ => ⟨hrest.clearedAdmins.symm, hrest.clearedMiners.symm⟩

theorem Live.atRest (hlive : Live store) (hempty : store.memPool = []) : AtRest store := by
  have hstart := memPoolStart_of_empty hempty
  obtain ⟨hadmins, hminers⟩ := hlive.counts hempty
  refine ⟨?_, hempty, hlive.notForking, ?_, ?_, hadmins.symm, hminers.symm⟩
  · rw [← hstart]
    exact hlive.files
  · rw [hadmins, hlive.clearedAdmins, hstart]
  rw [hminers, hlive.clearedMiners, hstart]

theorem commit_eq (store : Store) : ∃ blockMiners, store.commit params miner hash =
      { store.commitCounts miner hash with
        memPool := []
        block := (store.commitCounts miner hash).block + 1
        db := { (store.commitCounts miner hash).db with blockMiners := blockMiners } } := by
  unfold commit storeBlockInfoInternal
  split
  · exact ⟨_, rfl⟩
  exact ⟨_, rfl⟩

theorem Live.blockWritten (hlive : Live store) :
    BlockWritten (store.addBlockRows miner hash) (store.commitFiles miner hash) := by
  have hstart : (store.addBlockRows miner hash).memPoolStart = store.memPoolStart :=
    addBlockRows_memPoolStart miner hash
  exact commitWrites_spec (hlive.filled miner hash).poolInv (by rw [hstart]; exact hlive.files.size)

theorem Live.blockStamped (hlive : Live store) :
    BlockStamped (store.addBlockRows miner hash) (store.commitCounts miner hash) :=
  (hlive.blockWritten miner hash).stamped (hlive.countable miner hash)
    (Nat.le_add_left 2 store.row)

/-- Rows below the new block rows are left as the log had them, and stale rows
behind the block are not touched. -/
theorem Live.commit_getRow (hlive : Live store) {i : ℕ} (hi : i < store.row ∨ store.row + 2 ≤ i) :
    (store.commit params miner hash).ledger.getRow i =
      if i < store.row then store.logRow i else store.ledger.getRow i := by
  obtain ⟨blockMiners, hcommit⟩ := store.commit_eq params miner hash
  have hstamped := hlive.blockStamped miner hash
  rw [hcommit]
  refine (hstamped.getRow i).trans ?_
  show (if i < store.row + 2 then _ else store.ledger.getRow i) = _
  by_cases hlt : i < store.row
  · rw [if_pos (by omega), if_pos hlt,
      stampedRow_of_lt (by show i < store.row + 2 - 2; omega), (hlive.filled miner hash).old i hlt]
  rw [if_neg (by omega), if_neg hlt]

theorem Live.commit_received (hlive : Live store) {i : ℕ} (hge : store.memPoolStart ≤ i)
    (hlt : i < store.row + 2) :
    ((store.commit params miner hash).ledger.getRow i).blockReceived = store.nextBlock := by
  obtain ⟨blockMiners, hcommit⟩ := store.commit_eq params miner hash
  have hfilled := hlive.filled miner hash
  have hrow : (store.commit params miner hash).ledger.getRow i =
      stampedRow (store.addBlockRows miner hash) i := by
    rw [hcommit]
    exact ((hlive.blockStamped miner hash).getRow i).trans (if_pos hlt)
  rw [hrow, stampedRow_blockReceived]
  exact hfilled.poolInv.received i (by rwa [addBlockRows_memPoolStart]) hlt

theorem Live.commit_block (hlive : Live store) :
    (store.commit params miner hash).block = store.block + 1 ∧
      (store.commit params miner hash).row = store.row + 2 := by
  obtain ⟨blockMiners, hcommit⟩ := store.commit_eq params miner hash
  rw [hcommit, (hlive.blockStamped miner hash).frame]
  exact ⟨rfl, rfl⟩

theorem Live.commit_atRest (hlive : Live store) (hbound : store.block + 1 < 2 ^ 31) :
    AtRest (store.commit params miner hash) := by
  obtain ⟨blockMiners, hcommit⟩ := store.commit_eq params miner hash
  have hstamped := hlive.blockStamped miner hash
  have hfiles := hlive.committed_stamped miner hash hbound hstamped
  have hrow : (store.commitCounts miner hash).row = store.row + 2 := by
    rw [hstamped.frame]
    rfl
  have hblock : (store.commitCounts miner hash).block = store.block := by
    rw [hstamped.frame]
    rfl
  have hcounts : ∀ type, blockCount (store.addBlockRows miner hash) type =
      countAt (store.commitCounts miner hash).ledger.getRow type (store.row + 2)
        (store.block + 1 + 1).toNat := by
    intro type
    rw [nextBlock_succ hlive.files.block_ge, blockCount, ← countAt_stampedRow]
    have hget : ∀ i, 0 < i → i < store.row + 2 →
        stampedRow (store.addBlockRows miner hash) i =
          (store.commitCounts miner hash).ledger.getRow i := fun i _ hlt => by
      rw [hstamped.getRow, if_pos (by exact hlt)]
    exact countAt_congr type _ (fun i hi hlt => by rw [hget i hi hlt])
      (fun i hi hlt => by rw [hget i hi hlt]) fun i hi hlt => by rw [hget i hi hlt]
  rw [hcommit]
  refine ⟨?_, rfl, ?_, ?_, ?_, ?_, ?_⟩
  · rw [hblock, hrow]
    exact ⟨hfiles.dbHeader, hfiles.ledgerHeader, hfiles.size, hfiles.block_ge,
      hfiles.block_lt, hfiles.log, hfiles.index.rows, hfiles.index.blockIndex,
      hfiles.index.indexEntity, hfiles.index.listMarker, hfiles.index.list⟩
  · rw [hstamped.frame]
    exact hlive.notForking
  · show (store.commitCounts miner hash).adminCount = countAt _ _
      (store.commitCounts miner hash).row ((store.commitCounts miner hash).block + 1 + 1).toNat
    rw [hblock, hrow, ← hcounts, hstamped.frame]
  · show (store.commitCounts miner hash).minerCount = countAt _ _
      (store.commitCounts miner hash).row ((store.commitCounts miner hash).block + 1 + 1).toNat
    rw [hblock, hrow, ← hcounts, hstamped.frame]
  · rw [hstamped.frame]
  rw [hstamped.frame]

theorem Live.commit (hlive : Live store) (hbound : store.block + 1 < 2 ^ 31) :
    Live (store.commit params miner hash) :=
  (hlive.commit_atRest params miner hash hbound).live

end Store

end Amberchain.Permission
