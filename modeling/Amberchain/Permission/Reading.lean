import Amberchain.Permission.Invariant
import Mathlib.Data.List.GetD

/-!
# What a lookup reads

Under the invariant `GetPermission` returns the newest row of its key: in the
ledger below the mempool, or in the ledger continued by the mempool.
-/

namespace Amberchain.Permission

open RowChain

namespace PermissionLedger

variable (ledger : PermissionLedger)

/-- Writing at most one row past the end leaves all other rows as they read. -/
theorem getRow_setRow {rowID : ℕ} (hsize : rowID ≤ ledger.size) (row : LedgerRow) (i : ℕ) :
    (ledger.setRow rowID row).getRow i = if i = rowID then row else ledger.getRow i := by
  unfold getRow setRow
  by_cases heq : i = rowID
  · subst heq
    simp
  by_cases hlt : i < ledger.size
  · simp [heq, hlt]
  have hmax : ¬ i < max ledger.size (rowID + 1) := by omega
  simp [heq, hlt, hmax]

@[simp]
theorem size_setRow (rowID : ℕ) (row : LedgerRow) :
    (ledger.setRow rowID row).size = max ledger.size (rowID + 1) :=
  rfl

@[simp]
theorem header_setRow (rowID : ℕ) (row : LedgerRow) :
    (ledger.setRow rowID row).header = ledger.header :=
  rfl

@[simp]
theorem header_setHeader (header : Header) : (ledger.setHeader header).header = some header :=
  rfl

theorem size_setHeader (hsize : 0 < ledger.size) (header : Header) :
    (ledger.setHeader header).size = ledger.size :=
  max_eq_left hsize

theorem setHeader_self {header : Header} (hheader : ledger.header = some header)
    (hsize : 0 < ledger.size) : ledger.setHeader header = ledger := by
  rw [setHeader, ← hheader, max_eq_left hsize]

theorem getRow_setHeader (hsize : 0 < ledger.size) (header : Header) :
    (ledger.setHeader header).getRow = ledger.getRow := by
  funext i
  simp only [getRow, ledger.size_setHeader hsize]
  rfl

end PermissionLedger

variable {base : ℕ}

theorem newestRow_congr {row row' : ℕ → LedgerRow} (key : PermKey)
    (hrows : ∀ i, 0 < i → i < base → (row i).key = (row' i).key) :
    newestRow row key base = newestRow row' key base :=
  lastRow_congr key hrows

/-- The newest row of a key before `base`, or a zero row. -/
def newest (row : ℕ → LedgerRow) (key : PermKey) (base : ℕ) : LedgerRow :=
  if newestRow row key base = 0 then LedgerRow.zero key
  else row (newestRow row key base)

theorem newest_congr {row row' : ℕ → LedgerRow} (key : PermKey)
    (hrows : ∀ i, 0 < i → i < base → row i = row' i) :
    newest row key base = newest row' key base := by
  have hnewest : newestRow row key base = newestRow row' key base :=
    newestRow_congr key fun i hpos hlt => by rw [hrows i hpos hlt]
  unfold newest
  rw [← hnewest]
  by_cases hnone : newestRow row key base = 0
  · rw [if_pos hnone, if_pos hnone]
  rw [if_neg hnone, if_neg hnone, hrows _ (Nat.pos_of_ne_zero hnone) (lastRow_lt hnone)]

/-- A row that answers a lookup of `key` in the rows before `base`. -/
structure RowAt (row : ℕ → LedgerRow) (key : PermKey) (base : ℕ)
    (found : LedgerRow) : Prop where
  thisRow : found.thisRow = newestRow row key base
  blockFrom : found.blockFrom = (newest row key base).blockFrom
  blockTo : found.blockTo = (newest row key base).blockTo
  flags : key.type ≠ MC_PTP_BLOCK_MINER →
    found.flags = (newest row key base).flags

variable {key : PermKey} {row : ℕ → LedgerRow}

theorem RowAt.of_newest (hthis : ∀ i, 0 < i → i < base → (row i).thisRow = i) :
    RowAt row key base (newest row key base) := by
  refine ⟨?_, rfl, rfl, fun _ => rfl⟩
  unfold newest
  by_cases hnone : newestRow row key base = 0
  · rw [hnone]
    rfl
  rw [if_neg hnone]
  exact hthis _ (Nat.pos_of_ne_zero hnone) (lastRow_lt hnone)

theorem RowAt.inRange_eq {found found' : LedgerRow} (hfound : RowAt row key base found)
    (hfound' : RowAt row key base found') (next : ℕ) :
    Store.inRange found next = Store.inRange found' next := by
  simp only [Store.inRange, hfound.blockFrom, hfound.blockTo, hfound'.blockFrom, hfound'.blockTo]

theorem RowAt.inRange_iff {type : PermType} {address : Hash160} {found : LedgerRow}
    (hfound : RowAt row ⟨nullEntity, address, type⟩ base found) (next : ℕ) :
    Store.inRange found next = true ↔ allowedAt row type base next address := by
  simp only [Store.inRange, allowedAt, hfound.blockFrom, hfound.blockTo, newest]
  by_cases hnone : newestRow row ⟨nullEntity, address, type⟩ base = 0
  · simp [hnone, LedgerRow.zero]
  simp [hnone]

theorem RowAt.congr {row row' : ℕ → LedgerRow} {key : PermKey} {base : ℕ}
    {found : LedgerRow} (hfound : RowAt row key base found)
    (hrows : ∀ i, 0 < i → i < base → row i = row' i) : RowAt row' key base found := by
  have hnewest := newest_congr key hrows
  constructor
  · rw [hfound.thisRow]
    exact newestRow_congr key fun i hpos hlt => by rw [hrows i hpos hlt]
  · rw [hfound.blockFrom, hnewest]
  · rw [hfound.blockTo, hnewest]
  intro htype
  rw [hfound.flags htype, hnewest]

@[simp]
theorem visible_blockFrom (key : PermKey) (dbRow : DBRow) :
    (visible key dbRow).blockFrom = dbRow.blockFrom := by
  unfold visible
  split <;> rfl

@[simp]
theorem visible_blockTo (key : PermKey) (dbRow : DBRow) :
    (visible key dbRow).blockTo = dbRow.blockTo := by
  unfold visible
  split <;> rfl

@[simp]
theorem visible_ledgerRow (key : PermKey) (dbRow : DBRow) :
    (visible key dbRow).ledgerRow = dbRow.ledgerRow := by
  unfold visible
  split <;> rfl

theorem visible_of_ne (htype : key.type ≠ MC_PTP_BLOCK_MINER)
    (dbRow : DBRow) : visible key dbRow = dbRow :=
  if_neg htype

theorem Indexed.lookup_eq_none {db : PermissionDB} (hindexed : Indexed db row base)
    {key : PermKey} (htype : key.type ≠ MC_PTP_BLOCK_INDEX)
    (hlookup : db.rows.lookup key = none) : newestRow row key base = 0 := by
  have hrows := hindexed key htype
  rw [hlookup] at hrows
  by_contra hrow
  simp [indexed, indexAt, hrow] at hrows

theorem Indexed.lookup_eq_some {db : PermissionDB} (hindexed : Indexed db row base)
    {key : PermKey} (htype : key.type ≠ MC_PTP_BLOCK_INDEX) {dbRow : DBRow}
    (hlookup : db.rows.lookup key = some dbRow) : newestRow row key base ≠ 0 ∧
      visible key dbRow = visible key
        ((row (newestRow row key base)).toDBRow (newestRow row key base)) := by
  have hrows := hindexed key htype
  rw [hlookup] at hrows
  unfold indexed indexAt at hrows
  by_cases hnone : lastRow (keyAt row) key base = 0
  · simp [hnone] at hrows
  rw [if_neg hnone, Option.map_some, Option.some_inj] at hrows
  exact ⟨hnone, hrows⟩

namespace Store

variable {store : Store}

/-- The database part of a lookup answers for the rows below `base`. -/
def ShowsBelow (store : Store) (key : PermKey) (base : ℕ) : Prop :=
  match store.committedRow key with
  | none => newestRow store.ledger.getRow key base = 0
  | some found => RowAt store.ledger.getRow key base found

/-- Outside a fork verification, and for the types it does not touch, an indexed
database answers a lookup. -/
theorem committedRow_spec (hindexed : Indexed store.db store.ledger.getRow base)
    (hthis : ∀ i, 0 < i → i < base → (store.ledger.getRow i).thisRow = i)
    {key : PermKey} (htype : key.type ≠ MC_PTP_BLOCK_INDEX)
    (hfork : store.copiedRow = 0 ∨ isForkType key.type = false) : store.ShowsBelow key base := by
  have hplain : ¬ (0 < store.copiedRow ∧ isForkType key.type = true) := by
    rcases hfork with hrow | htype'
    · simp [hrow]
    · simp [htype']
  unfold ShowsBelow committedRow
  cases hlookup : store.db.rows.lookup key with
  | none => exact hindexed.lookup_eq_none htype hlookup
  | some dbRow =>
    obtain ⟨hrow, hvisible⟩ := hindexed.lookup_eq_some htype hlookup
    have hfrom := congrArg DBRow.blockFrom hvisible
    have hto := congrArg DBRow.blockTo hvisible
    have hledger := congrArg DBRow.ledgerRow hvisible
    simp only [visible_blockFrom, visible_blockTo, visible_ledgerRow,
      LedgerRow.toDBRow] at hfrom hto hledger
    simp only [if_neg hplain]
    by_cases hupgrade : key.entity = upgradeEntity
    · -- the upgrade entity is read back from the ledger
      simp only [if_pos hupgrade, hledger]
      have hnewest : RowAt store.ledger.getRow key base _ := RowAt.of_newest hthis
      rwa [newest, if_neg hrow] at hnewest
    simp only [if_neg hupgrade]
    refine ⟨hledger, ?_, ?_, ?_⟩
    · rw [newest, if_neg hrow]
      exact hfrom
    · rw [newest, if_neg hrow]
      exact hto
    intro hminer
    rw [visible_of_ne hminer, visible_of_ne hminer] at hvisible
    rw [newest, if_neg hrow]
    exact congrArg DBRow.flags hvisible

theorem logRow_of_lt {i : ℕ} (hlt : i < store.memPoolStart) :
    store.logRow i = store.ledger.getRow i :=
  if_pos hlt

theorem logRow_of_ge {i : ℕ} (hge : store.memPoolStart ≤ i) : store.logRow i =
      store.memPool.getD (i - store.memPoolStart) (LedgerRow.zero ⟨0, 0, 0⟩) :=
  if_neg (not_lt.mpr hge)

theorem logRow_memPool {j : ℕ} (hlt : j < store.memPool.length) :
    store.logRow (store.memPoolStart + j) = store.memPool[j] := by
  rw [logRow_of_ge (Nat.le_add_right _ _), Nat.add_sub_cancel_left, List.getD_eq_getElem _ _ hlt]

theorem newestRow_logRow (key : PermKey) : newestRow store.logRow key store.memPoolStart =
      newestRow store.ledger.getRow key store.memPoolStart :=
  newestRow_congr key fun _ _ hlt => by rw [logRow_of_lt hlt]

namespace PoolChain

variable (hpool : PoolChain store)

include hpool

theorem start_add_length : store.memPoolStart + store.memPool.length = store.row := by
  have hle := hpool.le_row
  unfold memPoolStart
  omega

theorem start_pos : 0 < store.memPoolStart := by
  have hle := hpool.le_row
  unfold memPoolStart
  omega

theorem seekMemPool_some (htype : key.type ≠ MC_PTP_BLOCK_INDEX) {prevRow : ℕ} {next : LedgerRow}
    (hseek : seekMemPool store.memPool key prevRow = some next) :
    ∃ i, store.memPoolStart ≤ i ∧ i < store.row ∧ store.logRow i = next ∧
      next.key = key ∧ newestRow store.logRow key i = prevRow := by
  obtain ⟨j, hlt, hnext⟩ := List.getElem_of_mem (List.mem_of_find?_eq_some hseek)
  have hmatch := List.find?_some hseek
  simp only [decide_eq_true_eq] at hmatch
  have hend := hpool.start_add_length
  have hrow : store.logRow (store.memPoolStart + j) = next := by
    rw [logRow_memPool hlt, hnext]
  refine ⟨store.memPoolStart + j, by omega, by omega, hrow, hmatch.1, ?_⟩
  have hlinked := hpool.linked key htype (store.memPoolStart + j)
    (by have := hpool.start_pos; omega) (by omega) (by rw [keyAt, hrow, hmatch.1])
  rw [newestRow, ← hlinked, prevAt, hrow, hmatch.2]

theorem seekMemPool_ne_none (htype : key.type ≠ MC_PTP_BLOCK_INDEX) {prevRow i : ℕ}
    (hge : store.memPoolStart ≤ i) (hlt : i < store.row) (hkey : keyAt store.logRow i = key)
    (hprev : newestRow store.logRow key i = prevRow) :
    seekMemPool store.memPool key prevRow ≠ none := by
  intro hnone
  have hend := hpool.start_add_length
  have hj : i - store.memPoolStart < store.memPool.length := by omega
  have hrow := logRow_memPool hj
  rw [Nat.add_sub_cancel' hge] at hrow
  have hlinked := hpool.linked key htype i (by have := hpool.start_pos; omega) hlt hkey
  refine List.find?_eq_none.mp hnone _ (List.getElem_mem hj) ?_
  rw [← hrow]
  simp only [decide_eq_true_eq]
  exact ⟨hkey, hlinked.trans hprev⟩

theorem seekMemPool_newest (htype : key.type ≠ MC_PTP_BLOCK_INDEX) :
    seekMemPool store.memPool key (newestRow store.logRow key store.row) = none := by
  cases hseek : seekMemPool store.memPool key (newestRow store.logRow key store.row) with
  | none => rfl
  | some next =>
    obtain ⟨i, hge, hlt, hrow, hnext, hprev⟩ := hpool.seekMemPool_some htype hseek
    have hpos := hpool.start_pos
    have hkeyi : keyAt store.logRow i = key := by rw [keyAt, hrow, hnext]
    have hlast := le_lastRow (n := store.row) (by omega) hlt hkeyi
    have hbefore := lastRow_le_pred (keyAt store.logRow) key i
    unfold newestRow at *
    omega

/-- Following the mempool from a row of the key that is not older than the
committed one ends at the newest row of the key. -/
theorem followMemPool_spec (htype : key.type ≠ MC_PTP_BLOCK_INDEX) : ∀ (fuel : ℕ) (row : LedgerRow),
      newestRow store.logRow key store.memPoolStart ≤ row.thisRow →
      row.thisRow ≤ newestRow store.logRow key store.row →
      (row.thisRow ≠ 0 → keyAt store.logRow row.thisRow = key) →
      newestRow store.logRow key store.row + 1 ≤ max (row.thisRow + 1) store.memPoolStart + fuel →
      followMemPool store.memPool key fuel row row.thisRow =
        if row.thisRow = newestRow store.logRow key store.row then row
        else store.logRow (newestRow store.logRow key store.row) := by
  intro fuel
  induction fuel with
  | zero =>
    intro row hstart hle _ hfuel
    have heq : row.thisRow = newestRow store.logRow key store.row := by
      by_contra hne
      have hbelow : newestRow store.logRow key store.row < store.memPoolStart := by
        omega
      have hmid := lastRow_eq_of_lt_of_le hbelow (Nat.sub_le store.row _)
      unfold newestRow memPoolStart at *
      omega
    rw [followMemPool, if_pos heq]
  | succ fuel ih =>
    intro row hstart hle hkey hfuel
    by_cases heq : row.thisRow = newestRow store.logRow key store.row
    · have hnone : seekMemPool store.memPool key row.thisRow = none := by
        rw [heq]
        exact hpool.seekMemPool_newest htype
      simp only [followMemPool, hnone, if_pos heq]
    obtain ⟨i, hafter, hlast, hkeyi, hprev⟩ := exists_next hkey (lt_of_le_of_ne hle heq)
    have hi : i < store.row := hlast.trans_lt (lastRow_lt (by omega))
    have hge : store.memPoolStart ≤ i := by
      by_contra hbelow
      have hcommitted := le_lastRow (by omega) (not_le.mp hbelow) hkeyi
      unfold newestRow at hstart
      omega
    cases hseek : seekMemPool store.memPool key row.thisRow with
    | none =>
      exact absurd hseek (hpool.seekMemPool_ne_none htype hge hi hkeyi hprev)
    | some next =>
      obtain ⟨m, hgem, hltm, hrowm, hnext, hprevm⟩ := hpool.seekMemPool_some htype hseek
      have hpos := hpool.start_pos
      have hkeym : keyAt store.logRow m = key := by rw [keyAt, hrowm, hnext]
      have hlastm := le_lastRow (n := store.row) (by omega) hltm hkeym
      have hthis : next.thisRow = m := hrowm ▸ hpool.thisRow m hgem hltm
      have hnewer : row.thisRow < m := by
        by_cases hzero : row.thisRow = 0
        · omega
        rw [← hprevm]
        exact lastRow_lt (by unfold newestRow at hprevm; omega)
      have hcommitted := lastRow_le (keyAt store.logRow) key store.memPoolStart
      simp only [followMemPool, hseek, if_neg heq]
      rw [ih next (by rw [hthis]; exact hcommitted.trans hgem)
        (by rw [hthis]; exact hlastm) (fun _ => by rw [hthis, hkeym])
        (by rw [hthis]; omega)]
      by_cases hend : next.thisRow = newestRow store.logRow key store.row
      · rw [if_pos hend, ← hend, hthis, hrowm]
      rw [if_neg hend]

end PoolChain

/-- Without the mempool a lookup reads the ledger rows. -/
theorem permissionRow_committed (hshows : store.ShowsBelow key base) :
    RowAt store.ledger.getRow key base (store.permissionRow key false) := by
  unfold ShowsBelow at hshows
  unfold permissionRow
  cases hfound : store.committedRow key with
  | none =>
    rw [hfound] at hshows
    constructor <;> simp [newest, hshows, LedgerRow.zero]
  | some found =>
    rw [hfound] at hshows
    exact ⟨hshows.thisRow, hshows.blockFrom, hshows.blockTo, hshows.flags⟩

/-- A lookup ends at the newest row of the key, when the mempool has one. -/
theorem PoolChain.permissionRow_eq (hpool : PoolChain store) {key : PermKey}
    (htype : key.type ≠ MC_PTP_BLOCK_INDEX) (hshows : store.ShowsBelow key store.memPoolStart) :
    store.permissionRow key true =
      if newestRow store.logRow key store.row < store.memPoolStart then
        store.permissionRow key false
      else store.logRow (newestRow store.logRow key store.row) := by
  have hcommitted := permissionRow_committed hshows
  have hstart : newestRow store.logRow key store.memPoolStart = _ := newestRow_logRow key
  have hmono : newestRow store.logRow key store.memPoolStart ≤
      newestRow store.logRow key store.row :=
    lastRow_mono (Nat.sub_le store.row store.memPool.length)
  have hfollow := hpool.followMemPool_spec htype store.memPool.length
    (store.permissionRow key false)
  rw [hcommitted.thisRow, ← hstart] at hfollow
  have hrow : store.permissionRow key true =
      followMemPool store.memPool key store.memPool.length
        (store.permissionRow key false) (store.permissionRow key false).thisRow :=
    rfl
  have hend := hpool.start_add_length
  have hlast := lastRow_le_pred (keyAt store.logRow) key store.row
  have hbelow := lastRow_le_pred (keyAt store.logRow) key store.memPoolStart
  have hpos := hpool.start_pos
  rw [hrow, hcommitted.thisRow, ← hstart, hfollow le_rfl hmono (fun hzero => key_lastRow hzero)
      (by unfold newestRow at *; omega)]
  refine if_congr ⟨fun heq => ?_, fun hlt => ?_⟩ rfl rfl
  · rw [← heq]
    exact hbelow.trans_lt (by omega)
  exact lastRow_eq_of_lt_of_le hlt (Nat.sub_le _ _)

/-- With the mempool a lookup reads the whole log. -/
theorem PoolChain.rowAt (hpool : PoolChain store) {key : PermKey}
    (htype : key.type ≠ MC_PTP_BLOCK_INDEX) (hshows : store.ShowsBelow key store.memPoolStart) :
    RowAt store.logRow key store.row (store.permissionRow key true) := by
  have hcommitted := permissionRow_committed hshows
  rw [hpool.permissionRow_eq htype hshows]
  split
  · next hlt =>
    -- the mempool has no row of the key
    have heq := lastRow_eq_of_lt_of_le hlt (Nat.sub_le store.row store.memPool.length)
    have hnewest : newest store.logRow key store.row =
        newest store.ledger.getRow key store.memPoolStart := by
      rw [newest, newestRow, ← heq]
      exact newest_congr key fun i _ hlt => logRow_of_lt hlt
    refine ⟨?_, ?_, ?_, ?_⟩
    · rw [hcommitted.thisRow, ← newestRow_logRow, newestRow, newestRow, ← heq]
    · rw [hcommitted.blockFrom, hnewest]
    · rw [hcommitted.blockTo, hnewest]
    · exact fun hminer => by rw [hcommitted.flags hminer, hnewest]
  next hge =>
  have hnonzero : newestRow store.logRow key store.row ≠ 0 := by
    have hpos := hpool.start_pos
    omega
  refine ⟨hpool.thisRow _ (not_lt.mp hge) (lastRow_lt hnonzero), ?_, ?_, ?_⟩ <;>
    simp [newest, hnonzero]

theorem Live.showsBelow (hlive : Live store) {key : PermKey}
    (htype : key.type ≠ MC_PTP_BLOCK_INDEX) : store.ShowsBelow key store.memPoolStart :=
  committedRow_spec hlive.files.index.rows hlive.files.log.thisRow htype
    (.inl hlive.notForking)

end Store

end Amberchain.Permission

/-!
# What the counts count

`UpdateCounts` walks the admin/miner list, which only ever grows.  As long as
the list covers the log, the count is the number of addresses that hold the
permission, whatever else the list contains.
-/

namespace Amberchain.Permission

open RowChain

theorem allowedAt_congr {row row' : ℕ → LedgerRow} {type : PermType}
    {base next : ℕ} {address : Hash160} (hkeys : ∀ i, 0 < i → i < base → (row i).key = (row' i).key)
    (hfrom : ∀ i, 0 < i → i < base → (row i).blockFrom = (row' i).blockFrom)
    (hto : ∀ i, 0 < i → i < base → (row i).blockTo = (row' i).blockTo) :
    allowedAt row type base next address ↔ allowedAt row' type base next address := by
  unfold allowedAt
  rw [← newestRow_congr ⟨nullEntity, address, type⟩ hkeys]
  by_cases hnone : newestRow row ⟨nullEntity, address, type⟩ base = 0
  · simp [hnone]
  have hpos := Nat.pos_of_ne_zero hnone
  simp only [Store.inRange, hfrom _ hpos (lastRow_lt hnone), hto _ hpos (lastRow_lt hnone)]

theorem countAt_congr {row row' : ℕ → LedgerRow} {base : ℕ} (type : PermType) (next : ℕ)
    (hkeys : ∀ i, 0 < i → i < base → (row i).key = (row' i).key)
    (hfrom : ∀ i, 0 < i → i < base → (row i).blockFrom = (row' i).blockFrom)
    (hto : ∀ i, 0 < i → i < base → (row i).blockTo = (row' i).blockTo) :
    countAt row type base next = countAt row' type base next := by
  unfold countAt
  simp only [allowedAt_congr hkeys hfrom hto]

namespace Store

variable (store : Store)

/-- Counting over any list that covers the addresses counts those that hold the permission. -/
theorem listCount_eq_ncard {type : PermType} {allowed : Hash160 → Bool} {holds : Hash160 → Prop}
    (hlist : ∀ address, holds address → (address, type) ∈ store.db.adminMinerList)
    (hallowed : ∀ address, allowed address = true ↔ holds address) :
    store.listCount type allowed = {address | address ≠ 0 ∧ holds address}.ncard := by
  unfold listCount
  have hset : {address | address ≠ 0 ∧ holds address} =
      ((store.db.adminMinerList.filter fun entry =>
        entry.2 = type ∧ entry.1 ≠ 0 ∧ allowed entry.1).image Prod.fst : Finset Hash160) := by
    ext address
    simp only [Set.mem_ofPred_eq, Finset.coe_image, Finset.coe_filter,
      Set.mem_image, Prod.exists, exists_and_right, exists_eq_right, hallowed]
    constructor
    · rintro ⟨hzero, hholds⟩
      exact ⟨type, hlist address hholds, rfl, hzero, hholds⟩
    rintro ⟨_, _, _, hzero, hholds⟩
    exact ⟨hzero, hholds⟩
  rw [hset, Set.ncard_coe_finset, Finset.card_image_of_injOn]
  intro left hleft right hright hfst
  simp only [Finset.coe_filter, Set.mem_ofPred_eq] at hleft hright
  exact Prod.ext hfst (hleft.2.1.trans hright.2.1.symm)

theorem listCount_eq {row : ℕ → LedgerRow} {type : PermType} {base next : ℕ}
    {allowed : Hash160 → Bool}
    (hlist : ∀ address, newestRow row ⟨nullEntity, address, type⟩ base ≠ 0 →
      (address, type) ∈ store.db.adminMinerList) (hallowed : ∀ address, allowed address = true ↔
      allowedAt row type base next address) :
    BitVec.ofNat 32 (store.listCount type allowed) = countAt row type base next :=
  congrArg (BitVec.ofNat 32) (store.listCount_eq_ncard
    (fun address hholds => hlist address hholds.1) hallowed)

theorem permission_ne_zero {key : PermKey} (htype : key.type ≠ 0) : store.permission key ≠ 0 ↔
      inRange (store.permissionRow key true) store.nextBlock = true := by
  unfold permission getPermission
  by_cases hrange : inRange (store.permissionRow key true) store.nextBlock = true
  · simpa [hrange] using htype
  simp [hrange]

/-- Outside a fork verification `UpdateCounts` counts the addresses allowed by
the rows that its lookups read. -/
theorem updateCounts_eq (row : ℕ → LedgerRow) (base : ℕ)
    (hmarker : store.db.listMarker = true) (hfork : store.copiedRow = 0)
    (hrows : ∀ address type, type = MC_PTP_ADMIN ∨ type = MC_PTP_MINE →
      RowAt row ⟨nullEntity, address, type⟩ base
        (store.permissionRow ⟨nullEntity, address, type⟩ true))
    (hlist : ∀ address type, type = MC_PTP_ADMIN ∨ type = MC_PTP_MINE →
      newestRow row ⟨nullEntity, address, type⟩ base ≠ 0 →
      (address, type) ∈ store.db.adminMinerList) : store.updateCounts = { store with
        adminCount := countAt row MC_PTP_ADMIN base store.nextBlock
        minerCount := countAt row MC_PTP_MINE base store.nextBlock } := by
  have hadminType : MC_PTP_ADMIN ≠ 0 := by decide
  have hmineType : MC_PTP_MINE ≠ 0 := by decide
  have hadmins : BitVec.ofNat 32 (store.listCount MC_PTP_ADMIN store.adminAllowed) =
      countAt row MC_PTP_ADMIN base store.nextBlock := by
    refine store.listCount_eq
      (fun address => hlist address MC_PTP_ADMIN (.inl rfl)) fun address => ?_
    rw [adminAllowed, decide_eq_true_eq, store.permission_ne_zero hadminType]
    exact (hrows address MC_PTP_ADMIN (.inl rfl)).inRange_iff store.nextBlock
  have hminers : BitVec.ofNat 32 (store.listCount MC_PTP_MINE store.minerAllowed) =
      countAt row MC_PTP_MINE base store.nextBlock := by
    refine store.listCount_eq
      (fun address => hlist address MC_PTP_MINE (.inr rfl)) fun address => ?_
    rw [← (hrows address MC_PTP_MINE (.inr rfl)).inRange_iff store.nextBlock,
      ← store.permission_ne_zero hmineType]
    simp only [minerAllowed, hfork, lt_irrefl, if_false, decide_eq_true_eq]
    rfl
  rw [updateCounts, if_pos hmarker, hadmins, hminers]

end Store

end Amberchain.Permission
