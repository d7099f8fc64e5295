import Amberchain.Permission.RollBackLive

/-!
# Opening good files

Over files whose headers agree `Initialize` succeeds, repairs nothing, and leaves
the log as it is but for the counts of the last block-miner row.
-/

namespace Amberchain.Permission

open RowChain

/-- `row'` is `row` up to the counts of block-miner rows. -/
def Recounted (row row' : ℕ → LedgerRow) (base : ℕ) : Prop :=
  ∀ i, 0 < i → i < base → row' i = row i ∨
    (∃ address, (row i).key = blockMinerKey address) ∧
      ∃ adminCount minerCount, row' i = (row i).setCounts adminCount minerCount

variable {i : ℕ}

namespace Recounted

variable {row row' : ℕ → LedgerRow} {base : ℕ} (hre : Recounted row row' base)

include hre

section

variable (hi : 0 < i) (hlt : i < base)

include hi hlt

theorem key : (row' i).key = (row i).key := by
  rcases hre i hi hlt with heq | ⟨_, _, _, heq⟩ <;> rw [heq]
  rfl

theorem prevRow : (row' i).prevRow = (row i).prevRow := by
  rcases hre i hi hlt with heq | ⟨_, _, _, heq⟩ <;> rw [heq]
  rfl

theorem blockFrom : (row' i).blockFrom = (row i).blockFrom := by
  rcases hre i hi hlt with heq | ⟨_, _, _, heq⟩ <;> rw [heq]
  rfl

theorem blockTo : (row' i).blockTo = (row i).blockTo := by
  rcases hre i hi hlt with heq | ⟨_, _, _, heq⟩ <;> rw [heq]
  rfl

theorem blockReceived :
    (row' i).blockReceived = (row i).blockReceived := by
  rcases hre i hi hlt with heq | ⟨_, _, _, heq⟩ <;> rw [heq]
  rfl

theorem thisRow : (row' i).thisRow = (row i).thisRow := by
  rcases hre i hi hlt with heq | ⟨_, _, _, heq⟩ <;> rw [heq]
  rfl

theorem eq_of_ne
    (hkey : ∀ address, (row i).key ≠ blockMinerKey address) : row' i = row i := by
  rcases hre i hi hlt with heq | ⟨⟨address, hminer⟩, _⟩
  · exact heq
  exact absurd hminer (hkey address)

end

theorem countAt_eq (type : PermType) {last : ℕ} (hle : last ≤ base) (next : ℕ) :
    countAt row' type last next = countAt row type last next :=
  countAt_congr type next (fun i hi hlt => hre.key hi (by omega))
    (fun i hi hlt => hre.blockFrom hi (by omega)) fun i hi hlt => hre.blockTo hi (by omega)

theorem blockEnd {height last : ℕ} (hend : BlockEnd row base height last) :
    BlockEnd row' base height last := by
  have htwo := hend.two_lt
  have hle := hend.le_base
  have hindex : row' (last - 1) = row (last - 1) :=
    hre.eq_of_ne (by omega) (by omega) fun address hkey => by
      have htypes := congrArg PermKey.type (hend.index.symm.trans hkey)
      exact absurd htypes (by
        show MC_PTP_BLOCK_INDEX ≠ MC_PTP_BLOCK_MINER
        decide)
  refine ⟨htwo, hle, ?_, ?_, ?_, ?_, ?_, ?_⟩
  · intro i hi hlt
    rw [hre.blockReceived hi (by omega)]
    exact hend.under i hi hlt
  · intro i hi hlt
    rw [hre.blockReceived (by omega) hlt]
    exact hend.beyond i hi hlt
  · rw [hindex]
    exact hend.index
  · rw [hre.key (by omega) (by omega)]
    exact hend.miner
  · rw [hindex, hend.admins, hre.countAt_eq _ hle]
  rw [hindex, hend.miners, hre.countAt_eq _ hle]

theorem logInv {block : ℤ} (hlog : LogInv row block base) : LogInv row' block base := by
  constructor
  · exact hlog.pos
  · exact fun i hi hlt => (hre.thisRow hi hlt).trans (hlog.thisRow i hi hlt)
  · exact fun i hi hlt => hre.blockReceived hi hlt ▸ hlog.received_le i hi hlt
  · intro i j hi hij hlt
    rw [hre.blockReceived hi (by omega), hre.blockReceived (by omega) hlt]
    exact hlog.received_mono i j hi hij hlt
  · exact fun key htype => (hlog.linked key htype).congr
      (fun i hi hlt => (hre.key hi hlt).symm) fun i hi hlt => (hre.prevRow hi hlt).symm
  · intro i hi hlt
    rw [hre.key hi hlt, hre.blockReceived hi hlt]
    exact hlog.indexKey i hi hlt
  intro height hheight
  obtain ⟨last, hend⟩ := hlog.ends height hheight
  exact ⟨last, hre.blockEnd hend⟩

theorem symm : Recounted row' row base := by
  intro i hi hlt
  rcases hre i hi hlt with heq | ⟨hminer, adminCount, minerCount, heq⟩
  · exact .inl heq.symm
  refine .inr ⟨by rw [heq]; exact hminer, (row i).consensus, (row i).flags, ?_⟩
  rw [heq]
  rfl

theorem indexed_eq (key : PermKey) : indexed row' key base = indexed row key base := by
  have hnewest : lastRow (keyAt row') key base = lastRow (keyAt row) key base :=
    newestRow_congr key fun i hi hlt => hre.key hi hlt
  unfold indexed indexAt
  rw [hnewest]
  by_cases hnone : lastRow (keyAt row) key base = 0
  · rw [if_pos hnone, if_pos hnone]
  have hkey : (row (lastRow (keyAt row) key base)).key = key := key_lastRow hnone
  dsimp only
  rcases hre _ (Nat.pos_of_ne_zero hnone) (lastRow_lt hnone) with
    heq | ⟨⟨address, hminer⟩, adminCount, minerCount, heq⟩
  · rw [heq]
  have htype : key.type = MC_PTP_BLOCK_MINER := congrArg PermKey.type (hkey.symm.trans hminer)
  rw [heq]
  simp only [visible, htype, if_true, LedgerRow.toDBRow, LedgerRow.setCounts]

end Recounted

variable {db : PermissionDB}

theorem Committed.recount {ledger ledger' : PermissionLedger}
    {block : ℤ} {base : ℕ} (hfiles : Committed db ledger block base)
    (hre : Recounted ledger.getRow ledger'.getRow base)
    (hheader : ledger'.header = ledger.header) (hsize : base ≤ ledger'.size) :
    Committed db ledger' block base := by
  refine ⟨hfiles.dbHeader, hheader.trans hfiles.ledgerHeader, hsize, hfiles.block_ge,
    hfiles.block_lt, hre.logInv hfiles.log,
    ⟨?_, ?_, hfiles.index.indexEntity, hfiles.index.listMarker, ?_⟩⟩
  · intro key htype
    rw [hfiles.index.rows key htype, hre.indexed_eq key]
  · exact fun height last hheight hend =>
      hfiles.index.blockIndex height last hheight (hre.symm.blockEnd hend)
  intro i hi hlt hadmin
  rw [hre.key hi hlt] at hadmin ⊢
  exact hfiles.index.list i hi hlt hadmin

/-- `row'` is `row` up to the counts in the last two rows. -/
def Restamped (row row' : ℕ → LedgerRow) (base : ℕ) : Prop :=
  ∀ i, 0 < i → i < base → (i + 2 < base → row' i = row i) ∧
    ∃ adminCount minerCount, row' i = (row i).setCounts adminCount minerCount

theorem Restamped.of_eq {row row' : ℕ → LedgerRow} {base : ℕ}
    (hrows : ∀ i, 0 < i → i < base → row' i = row i) : Restamped row row' base :=
  fun i hi hlt => ⟨fun _ => hrows i hi hlt, (row i).consensus, (row i).flags, hrows i hi hlt⟩

namespace Restamped

variable {row row' : ℕ → LedgerRow} {base : ℕ} (hstamp : Restamped row row' base)

include hstamp

theorem symm : Restamped row' row base := by
  intro i hi hlt
  obtain ⟨hold, adminCount, minerCount, hnew⟩ := hstamp i hi hlt
  refine ⟨fun hbefore => (hold hbefore).symm, (row i).consensus, (row i).flags, ?_⟩
  rw [hnew]
  rfl

theorem trans {row'' : ℕ → LedgerRow} (hnext : Restamped row' row'' base) :
    Restamped row row'' base := by
  intro i hi hlt
  obtain ⟨hold, _, _, hnew⟩ := hstamp i hi hlt
  obtain ⟨hold', adminCount, minerCount, hnew'⟩ := hnext i hi hlt
  refine ⟨fun hbefore => (hold' hbefore).trans (hold hbefore), adminCount, minerCount, ?_⟩
  rw [hnew', hnew]
  rfl

theorem key (hi : 0 < i) (hlt : i < base) : (row' i).key = (row i).key := by
  obtain ⟨_, _, _, hnew⟩ := hstamp i hi hlt
  rw [hnew]
  rfl

theorem thisRow (hi : 0 < i) (hlt : i < base) : (row' i).thisRow = (row i).thisRow := by
  obtain ⟨_, _, _, hnew⟩ := hstamp i hi hlt
  rw [hnew]
  rfl

theorem countAt_eq (type : PermType) (next : ℕ) :
    countAt row' type base next = countAt row type base next := by
  refine countAt_congr type next (fun i hi hlt => hstamp.key hi hlt) (fun i hi hlt => ?_)
    fun i hi hlt => ?_
  · obtain ⟨_, _, _, hnew⟩ := hstamp i hi hlt
    rw [hnew]
    rfl
  obtain ⟨_, _, _, hnew⟩ := hstamp i hi hlt
  rw [hnew]
  rfl

/-- Behind a whole block the index does not see the difference. -/
theorem indexed {height : ℕ} (hindexed : Indexed db row base)
    (hend : BlockEnd row base height base) : Indexed db row' base := by
  intro key htype
  rw [hindexed key htype]
  have hnewest : lastRow (keyAt row') key base = lastRow (keyAt row) key base :=
    newestRow_congr key fun i hi hlt => hstamp.key hi hlt
  unfold Permission.indexed indexAt
  rw [hnewest]
  by_cases hnone : lastRow (keyAt row) key base = 0
  · rw [if_pos hnone, if_pos hnone]
  have hkey : (row (lastRow (keyAt row) key base)).key = key := key_lastRow hnone
  have hlt := lastRow_lt hnone
  obtain ⟨hold, adminCount, minerCount, hnew⟩ := hstamp _ (Nat.pos_of_ne_zero hnone) hlt
  dsimp only
  by_cases hbefore : lastRow (keyAt row) key base + 2 < base
  · rw [hold hbefore]
  by_cases hindex : lastRow (keyAt row) key base = base - 1
  · rw [hindex, hend.index] at hkey
    exact absurd (congrArg PermKey.type hkey).symm htype
  have hminer : lastRow (keyAt row) key base = base - 2 := by omega
  obtain ⟨address, hminerKey⟩ := hend.miner
  rw [hminer, hminerKey] at hkey
  have hkeyType : key.type = MC_PTP_BLOCK_MINER := (congrArg PermKey.type hkey).symm
  rw [hnew]
  simp only [visible, hkeyType, if_true, LedgerRow.toDBRow, LedgerRow.setCounts]

end Restamped

namespace Store

theorem height_of_nonneg {store : Store} (hge : 0 ≤ store.block)
    (hlt : store.block < 2 ^ 31) : store.height = store.block.toNat := by
  unfold height
  rw [BitVec.toNat_ofInt]
  omega

def opened (db : PermissionDB) (ledger : PermissionLedger) (header : Header) : Store :=
  { zero db ledger with block := header.block, row := header.lastRow }

theorem initializeFrom_of_headers {ledger : PermissionLedger}
    {header : Header} (hdb : db.header = some header)
    (hledger : ledger.header = some header) (hsize : header.lastRow ≤ ledger.size) :
    initializeFrom db ledger =
      let counted := (opened db ledger header).updateCounts.resetClearedCounts
      if counted.row - 1 = 0 then (counted, none)
      else if addressText (counted.ledger.getRow (counted.row - 1)).key.address
          ≠ addressText (blockRowAddress counted.height) then
        (counted, some .dbOpenError)
      else (counted.restampCounts, none) := by
  have hopen : (zero db ledger).openFiles = (zero db ledger, header, header) := by
    simp [openFiles, zero, hdb, hledger]
  have hlt : ¬ ledger.size < header.lastRow := not_lt.mpr hsize
  unfold initializeFrom
  rw [hopen]
  simp only [lt_irrefl, if_false, ne_eq, not_true, false_or]
  rw [if_neg (by exact hlt)]
  rfl

/-- Stamping the recounted admins and miners changes the last two rows and
nothing else. -/
theorem restampCounts_spec (store : Store) (hrow : 2 ≤ store.row)
    (hsize : store.row ≤ store.ledger.size) :
    ∃ ledger : PermissionLedger, store.restampCounts = { store with ledger := ledger } ∧
      ledger.size = store.ledger.size ∧ ledger.header = store.ledger.header ∧ ∀ i, ledger.getRow i =
        if store.row - 2 ≤ i ∧ i < store.row then
          (store.ledger.getRow i).setCounts store.adminCount store.minerCount
        else store.ledger.getRow i := by
  let first := store.ledger.setRow (store.row - 1)
    ((store.ledger.getRow (store.row - 1)).setCounts store.adminCount store.minerCount)
  have hfirst : first.size = store.ledger.size := by
    simp only [first, PermissionLedger.size_setRow]
    omega
  have hbefore : first.getRow (store.row - 2) = store.ledger.getRow (store.row - 2) := by
    rw [store.ledger.getRow_setRow (by omega), if_neg (by omega)]
  refine ⟨first.setRow (store.row - 2)
    ((first.getRow (store.row - 2)).setCounts store.adminCount store.minerCount), rfl, ?_, rfl, ?_⟩
  · rw [PermissionLedger.size_setRow]
    omega
  intro i
  rw [first.getRow_setRow (by omega), hbefore, store.ledger.getRow_setRow (by omega)]
  by_cases hlast : i = store.row - 2
  · rw [if_pos hlast, if_pos (by omega), hlast]
  by_cases hend : i = store.row - 1
  · rw [if_neg hlast, if_pos hend, if_pos (by omega), hend]
  rw [if_neg hlast, if_neg hend, if_neg (by omega)]

/-- What `Initialize` makes of good files whose last block may still miss its
counts. -/
structure Opened (db : PermissionDB) (ledger ledger' : PermissionLedger) (block : ℤ)
    (base : ℕ) (result : Store × Option McError) : Prop where
  noError : result.2 = none
  atRest : AtRest result.1
  block : result.1.block = block
  row : result.1.row = base
  db : result.1.db = db
  size : result.1.ledger.size = ledger'.size
  stale : ∀ i, base ≤ i → result.1.ledger.getRow i = ledger'.getRow i
  recounted : Recounted ledger.getRow result.1.ledger.getRow base

/-- Good files open without an error, and the store is at rest over the same log.
The counts of the last block need not have been written. -/
theorem initializeFrom_restamped {ledger ledger' : PermissionLedger}
    {block : ℤ} {base : ℕ} (hfiles : Committed db ledger block base)
    (hstamp : Restamped ledger.getRow ledger'.getRow base)
    (hheader : ledger'.header = ledger.header) (hsize : base ≤ ledger'.size) :
    Opened db ledger ledger' block base (initializeFrom db ledger') := by
  have hlt := hfiles.block_lt
  have hpos := hfiles.log.pos
  have hinit := initializeFrom_of_headers hfiles.dbHeader (hheader.trans hfiles.ledgerHeader) hsize
  have hindexed : Indexed db ledger'.getRow base := by
    by_cases hempty : base = 1
    · intro key htype
      rw [hfiles.index.rows key htype, hempty]
      simp [indexed, indexAt]
    · exact hstamp.indexed hfiles.index.rows (hfiles.log.blockEnd_base hempty).2
  let counted := (opened db ledger' ⟨block, base⟩).updateCounts.resetClearedCounts
  have hcounted : counted =
      { opened db ledger' ⟨block, base⟩ with
        adminCount := countAt ledger.getRow MC_PTP_ADMIN base (block + 1).toNat
        minerCount := countAt ledger.getRow MC_PTP_MINE base (block + 1).toNat
        clearedAdminCount := countAt ledger.getRow MC_PTP_ADMIN base (block + 1).toNat
        clearedMinerCount := countAt ledger.getRow MC_PTP_MINE base (block + 1).toNat
        clearedMinerCountForMinerVerification :=
          countAt ledger.getRow MC_PTP_MINE base (block + 1).toNat } := by
    have hcounts := updateCounts_of_index (opened db ledger' ⟨block, base⟩) hindexed
      (fun i hi hlt' => (hstamp.thisRow hi hlt').trans (hfiles.log.thisRow i hi hlt'))
      hfiles.index.listMarker
      (fun i hi hlt' hadmin => by
        have hkey : ((opened db ledger' ⟨block, base⟩).ledger.getRow i).key =
            (ledger.getRow i).key := hstamp.key hi hlt'
        rw [hkey] at hadmin ⊢
        exact hfiles.index.list i hi hlt' hadmin) rfl rfl
    have hledger : (opened db ledger' ⟨block, base⟩).ledger = ledger' := rfl
    rw [hledger, hstamp.countAt_eq, hstamp.countAt_eq] at hcounts
    simp only [counted, hcounts]
    rfl
  by_cases hempty : base = 1
  · have hresult : initializeFrom db ledger' = (counted, none) := by
      rw [hinit]
      have hrow : counted.row - 1 = 0 := by
        rw [hcounted]
        show base - 1 = 0
        omega
      exact if_pos hrow
    have hnone : Recounted ledger.getRow ledger'.getRow base := fun i hi hlt' => by omega
    have hnewFiles := hfiles.recount hnone hheader hsize
    rw [hresult, hcounted]
    have hcounts := fun type => hnone.countAt_eq type le_rfl (block + 1).toNat
    exact ⟨rfl, ⟨hnewFiles, rfl, rfl, (hcounts _).symm, (hcounts _).symm, rfl, rfl⟩, rfl, rfl,
      rfl, rfl, fun _ _ => rfl, hnone⟩
  obtain ⟨hblock, hend⟩ := hfiles.log.blockEnd_base hempty
  have hblockNext : block.toNat + 1 = (block + 1).toNat := by omega
  have hadmins := hend.admins
  have hminers := hend.miners
  rw [hblockNext] at hadmins hminers
  have hrow : counted.row = base := by rw [hcounted]; rfl
  have hledger : counted.ledger = ledger' := by rw [hcounted]; rfl
  have hheight : counted.height = block.toNat := by
    rw [hcounted]
    exact height_of_nonneg hblock hlt
  have hresult : initializeFrom db ledger' = (counted.restampCounts, none) := by
    rw [hinit]
    rw [if_neg (by
      show ¬ counted.row - 1 = 0
      omega), if_neg]
    rw [hledger, hrow, hheight, hstamp.key (by omega) (by omega), hend.index, not_not]
    rfl
  obtain ⟨newLedger, hrestamp, hnewSize, hnewHeader, hget⟩ :=
    counted.restampCounts_spec (by omega) (by rw [hrow, hledger]; exact hsize)
  rw [hledger] at hnewSize hnewHeader
  -- the block-index row of the log already has these counts
  have hre : Recounted ledger.getRow newLedger.getRow base := by
    intro i hi hlt'
    obtain ⟨hold, adminCount, minerCount, hnew⟩ := hstamp i hi hlt'
    rw [hget i, hledger]
    by_cases hbefore : i + 2 < base
    · rw [if_neg (by omega), hold hbefore]
      exact .inl rfl
    rw [if_pos (by omega), hnew]
    by_cases hminer : i = base - 2
    · rw [hminer]
      exact .inr ⟨hend.miner, _, _, rfl⟩
    have hindex : i = base - 1 := by omega
    rw [hindex, hcounted]
    left
    rw [← hadmins, ← hminers]
    rfl
  have hnewFiles := hfiles.recount hre (hnewHeader.trans hheader) (by omega)
  rw [hresult, hrestamp]
  refine ⟨rfl, ⟨?_, ?_, ?_, ?_, ?_, ?_, ?_⟩, ?_, hrow, ?_, hnewSize, ?_, hre⟩
  · rw [hcounted]
    exact hnewFiles
  · rw [hcounted]
    rfl
  · rw [hcounted]
    rfl
  · rw [hrow, hre.countAt_eq _ le_rfl, hcounted]
    rfl
  · rw [hrow, hre.countAt_eq _ le_rfl, hcounted]
    rfl
  · rw [hcounted]
  · rw [hcounted]
  · rw [hcounted]
    rfl
  · rw [hcounted]
    rfl
  intro i hi
  refine (hget i).trans ?_
  rw [if_neg (by omega), hledger]

theorem initializeFrom_committed {ledger : PermissionLedger}
    {block : ℤ} {base : ℕ} (hfiles : Committed db ledger block base) :
    Opened db ledger ledger block base (initializeFrom db ledger) :=
  initializeFrom_restamped hfiles (Restamped.of_eq fun _ _ _ => rfl) rfl hfiles.size

/-- The store that `Initialize` makes when there are no files yet. -/
def newStore : Store :=
  { zero
      { PermissionDB.empty with header := some ⟨-1, 1⟩, listMarker := true }
      { PermissionLedger.empty with header := some ⟨-1, 1⟩, size := 1 } with
    block := -1
    row := 1 }

theorem countAt_one (row : ℕ → LedgerRow) (type : PermType) (next : ℕ) :
    countAt row type 1 next = 0 := by
  simp [countAt, allowedAt]

theorem newStore_atRest : AtRest newStore := by
  refine ⟨⟨rfl, rfl, le_rfl, by decide, by decide, ?_,
    ⟨?_, ?_, fun key _ _ => Finmap.lookup_empty key, rfl, ?_⟩⟩, rfl, rfl, ?_, ?_, rfl, rfl⟩
  · refine ⟨by decide, ?_, ?_, ?_, ?_, ?_, ?_⟩
    · exact fun i hi hlt => absurd hlt (by show ¬ i < 1; omega)
    · exact fun i hi hlt => absurd hlt (by show ¬ i < 1; omega)
    · exact fun i j hi hij hlt => absurd hlt (by show ¬ j < 1; omega)
    · exact fun key htype i hi hlt => absurd hlt (by show ¬ i < 1; omega)
    · exact fun i hi hlt => absurd hlt (by show ¬ i < 1; omega)
    · exact fun height hheight => absurd hheight (by show ¬ (height : ℤ) ≤ -1; omega)
  · intro key htype
    have hindexed : indexed newStore.ledger.getRow key 1 = none := by
      simp [indexed, indexAt]
    exact hindexed.symm
  · exact fun height last hheight => absurd hheight (by show ¬ (height : ℤ) ≤ -1; omega)
  · exact fun i hi hlt => absurd hlt (by show ¬ i < 1; omega)
  · exact (countAt_one _ _ _).symm
  exact (countAt_one _ _ _).symm

end Store

end Amberchain.Permission
