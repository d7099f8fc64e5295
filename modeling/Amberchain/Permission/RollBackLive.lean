import Amberchain.Permission.CommitLive

/-!
# The store after a rollback

Reading the ledger downwards and putting each key back to the row its last row
links to leaves the index of the shorter log.
-/

namespace Amberchain.Permission

open RowChain

/-- Undoing the newest row of an index leaves the index of the rows before. -/
theorem Indexed.undo {store : Store} {db : PermissionDB} {n : ℕ} (hpos : 0 < n)
    (hindexed : Indexed db store.ledger.getRow (n + 1))
    (hlinked : ∀ key, key.type ≠ MC_PTP_BLOCK_INDEX →
      LinkedAt (keyAt store.ledger.getRow) (prevAt store.ledger.getRow) key (n + 1)) :
    Indexed (db.write (store.undoWrite (store.ledger.getRow n))) store.ledger.getRow n := by
  intro key htype
  have hafter := hindexed key htype
  by_cases hkey : (store.ledger.getRow n).key = key
  · have hrow : indexed store.ledger.getRow key n = if prevAt store.ledger.getRow n = 0 then none
        else some (visible key ((store.ledger.getRow (prevAt store.ledger.getRow n)).toDBRow
          (prevAt store.ledger.getRow n))) := by
      subst hkey
      exact indexAt_of_linkedAt _ hpos (hlinked _ htype)
    rw [hrow]
    unfold Store.undoWrite prevAt
    by_cases hprev : (store.ledger.getRow n).prevRow = 0
    · rw [if_neg (not_not.mpr hprev), if_pos hprev, hkey]
      simp [PermissionDB.write]
    rw [if_pos hprev, if_neg hprev, hkey]
    simp [PermissionDB.write]
  have hsame : indexed store.ledger.getRow key n = indexed store.ledger.getRow key (n + 1) :=
    (indexAt_succ_of_ne _ hkey).symm
  rw [hsame, ← hafter]
  unfold Store.undoWrite
  split
  · simp only [PermissionDB.write, Finmap.lookup_insert_of_ne _ (Ne.symm hkey)]
  simp only [PermissionDB.write, Finmap.lookup_erase_ne (Ne.symm hkey)]

theorem lookup_undoWrite {store : Store} (db : PermissionDB) {row : LedgerRow}
    {key : PermKey} (hkey : row.key ≠ key) :
    (db.write (store.undoWrite row)).rows.lookup key = db.rows.lookup key := by
  unfold Store.undoWrite
  split
  · exact Finmap.lookup_insert_of_ne _ (Ne.symm hkey)
  exact Finmap.lookup_erase_ne (Ne.symm hkey)

/-- A batch of row writes changes the rows of the database and nothing else. -/
structure OnlyRows (old new : PermissionDB) : Prop where
  header : new.header = old.header
  listMarker : new.listMarker = old.listMarker
  list : new.adminMinerList = old.adminMinerList
  blockMiners : new.blockMiners = old.blockMiners
  grants : new.grants = old.grants

theorem onlyRows_undoWrite (store : Store) (db : PermissionDB) (row : LedgerRow) :
    OnlyRows db (db.write (store.undoWrite row)) := by
  unfold Store.undoWrite
  split <;> exact ⟨rfl, rfl, rfl, rfl, rfl⟩

theorem OnlyRows.trans {first second third : PermissionDB}
    (hleft : OnlyRows first second) (hright : OnlyRows second third) : OnlyRows first third :=
  ⟨hright.header.trans hleft.header, hright.listMarker.trans hleft.listMarker,
    hright.list.trans hleft.list, hright.blockMiners.trans hleft.blockMiners,
    hright.grants.trans hleft.grants⟩

/-- The rows above a height are undone one by one down to the cut. -/
theorem undoWrites_spec {store : Store} {block : ℤ} {cut : ℕ} (hpos : 0 < cut)
    (hunder : ∀ i, 0 < i → i < cut → ((store.ledger.getRow i).blockReceived : ℤ) ≤ block) :
    ∀ (n : ℕ) (db : PermissionDB), cut ≤ n + 1 →
      (∀ i, cut ≤ i → i ≤ n → block < ((store.ledger.getRow i).blockReceived : ℤ)) →
      (∀ key, key.type ≠ MC_PTP_BLOCK_INDEX →
        LinkedAt (keyAt store.ledger.getRow) (prevAt store.ledger.getRow) key (n + 1)) →
      Indexed db store.ledger.getRow (n + 1) →
      Indexed (db.commit (store.undoWrites block n)) store.ledger.getRow cut ∧
        OnlyRows db (db.commit (store.undoWrites block n)) ∧
        ∀ key, (∀ i, cut ≤ i → i ≤ n → (store.ledger.getRow i).key ≠ key) →
          (db.commit (store.undoWrites block n)).rows.lookup key = db.rows.lookup key := by
  intro n
  induction n with
  | zero =>
    intro db hcut _ _ hindexed
    have hone : cut = 1 := by omega
    subst hone
    exact ⟨hindexed, ⟨rfl, rfl, rfl, rfl, rfl⟩, fun _ _ => rfl⟩
  | succ n ih =>
    intro db hcut hover hlinked hindexed
    by_cases hend : cut = n + 2
    · -- the newest row is below the cut: nothing is undone
      have hstop : ¬ block < ((store.ledger.getRow (n + 1)).blockReceived : ℤ) := by
        have := hunder (n + 1) (by omega) (by omega)
        omega
      have hnil : store.undoWrites block (n + 1) = [] := by
        simp only [Store.undoWrites, if_neg hstop]
      rw [hnil, hend]
      exact ⟨hindexed, ⟨rfl, rfl, rfl, rfl, rfl⟩, fun _ _ => rfl⟩
    have hgo := hover (n + 1) (by omega) le_rfl
    have hcons : store.undoWrites block (n + 1) =
        store.undoWrite (store.ledger.getRow (n + 1)) :: store.undoWrites block n := by
      simp only [Store.undoWrites, if_pos hgo]
    have hundone := hindexed.undo (by omega) hlinked
    obtain ⟨hresult, honly, hframe⟩ := ih _ (by omega)
      (fun i hi hle => hover i hi (by omega))
      (fun key htype => (hlinked key htype).mono (by omega)) hundone
    rw [hcons, PermissionDB.commit_cons]
    refine ⟨hresult, (onlyRows_undoWrite store db _).trans honly, fun key hkey => ?_⟩
    rw [hframe key fun i hi hle => hkey i hi (by omega)]
    exact lookup_undoWrite db (hkey (n + 1) (by omega) le_rfl)

namespace Store

variable {store : Store}

/-- With an empty mempool `UpdateCounts` counts the rows that the database
indexes. -/
theorem updateCounts_of_index (store : Store) {base : ℕ}
    (hindexed : Indexed store.db store.ledger.getRow base)
    (hthis : ∀ i, 0 < i → i < base → (store.ledger.getRow i).thisRow = i)
    (hmarker : store.db.listMarker = true)
    (hlist : ∀ i, 0 < i → i < base → isAdminMinerKey (store.ledger.getRow i).key = true →
      ((store.ledger.getRow i).key.address, (store.ledger.getRow i).key.type)
        ∈ store.db.adminMinerList) (hempty : store.memPool = []) (hfork : store.copiedRow = 0) :
    store.updateCounts = { store with
        adminCount := countAt store.ledger.getRow MC_PTP_ADMIN base store.nextBlock
        minerCount := countAt store.ledger.getRow MC_PTP_MINE base store.nextBlock } := by
  refine updateCounts_eq store store.ledger.getRow base hmarker hfork ?_ ?_
  · intro address type htype
    have hshows : store.ShowsBelow ⟨nullEntity, address, type⟩ base :=
      committedRow_spec hindexed hthis (ne_blockIndex_of_type htype) (.inl hfork)
    have hrow : store.permissionRow ⟨nullEntity, address, type⟩ true =
        store.permissionRow ⟨nullEntity, address, type⟩ false := by
      unfold permissionRow
      rw [hempty]
      rfl
    rw [hrow]
    exact permissionRow_committed hshows
  exact fun address type htype hrow => mem_list_of_newestRow hlist htype hrow

theorem updateCounts_of_files (store : Store) {block : ℤ} {base : ℕ}
    (hfiles : Committed store.db store.ledger block base) (hempty : store.memPool = [])
    (hfork : store.copiedRow = 0) : store.updateCounts = { store with
        adminCount := countAt store.ledger.getRow MC_PTP_ADMIN base store.nextBlock
        minerCount := countAt store.ledger.getRow MC_PTP_MINE base store.nextBlock } :=
  store.updateCounts_of_index hfiles.index.rows hfiles.log.thisRow hfiles.index.listMarker
    hfiles.index.list hempty hfork

/-- `ClearMemPool` leaves the committed part of the store. -/
theorem Live.clearMemPool_eq (hlive : Live store) : ∃ minerCount, store.clearMemPool = { store with
        memPool := []
        row := store.memPoolStart
        adminCount := store.clearedAdminCount
        minerCount := store.clearedMinerCount
        clearedMinerCountForMinerVerification := minerCount } := by
  unfold clearMemPool
  by_cases hempty : store.memPool = []
  · obtain ⟨hadmins, hminers⟩ := hlive.counts hempty
    rw [if_neg (not_not.mpr hempty)]
    refine ⟨store.minerCount, ?_⟩
    simp only [resetClearedCounts, ← hadmins, ← hminers, memPoolStart_of_empty hempty, hempty]
  have hfiles : Committed store.dropMemPool.db store.dropMemPool.ledger store.block
      store.memPoolStart := hlive.files
  rw [if_pos hempty, updateCounts_of_files store.dropMemPool hfiles rfl hlive.notForking]
  refine ⟨store.clearedMinerCount, ?_⟩
  have hnext : store.dropMemPool.nextBlock = store.nextBlock := rfl
  have hledger : store.dropMemPool.ledger = store.ledger := rfl
  rw [hnext, hledger, ← hlive.clearedAdmins, ← hlive.clearedMiners]
  rfl

theorem Live.clearMemPool_atRest (hlive : Live store) : AtRest store.clearMemPool := by
  obtain ⟨minerCount, heq⟩ := hlive.clearMemPool_eq
  rw [heq]
  exact ⟨hlive.files, rfl, hlive.notForking, hlive.clearedAdmins, hlive.clearedMiners, rfl, rfl⟩

structure Cut (row : ℕ → LedgerRow) (base : ℕ) (height : ℤ) (cut : ℕ) : Prop where
  pos : 0 < cut
  le_base : cut ≤ base
  under : ∀ i, 0 < i → i < cut → ((row i).blockReceived : ℤ) ≤ height
  beyond : ∀ i, cut ≤ i → i < base → height < ((row i).blockReceived : ℤ)

theorem Cut.unique {row : ℕ → LedgerRow} {base : ℕ} {height : ℤ} {left right : ℕ}
    (hleft : Cut row base height left) (hright : Cut row base height right) : left = right := by
  have hleftPos := hleft.pos
  have hrightPos := hright.pos
  have hleftBase := hleft.le_base
  have hrightBase := hright.le_base
  by_contra hne
  rcases Nat.lt_or_gt_of_ne hne with hlt | hlt
  · have hover := hleft.beyond left le_rfl (by omega)
    have hunder := hright.under left (by omega) hlt
    omega
  have hover := hright.beyond right le_rfl (by omega)
  have hunder := hleft.under right (by omega) hlt
  omega

theorem Cut.cutRow_eq {base : ℕ} {height : ℤ} {cut : ℕ}
    (hcut : Cut store.ledger.getRow base height cut) : store.cutRow height (base - 1) = cut := by
  have hpos := hcut.pos
  have hle := hcut.le_base
  refine cutAbove_eq hpos (fun hne => ?_) (base - 1) (by omega) fun i hi hlt => ?_
  · have hunder := hcut.under (cut - 1) (by omega) (by omega)
    simp only [decide_eq_false_iff_not]
    omega
  have hover := hcut.beyond i hi (by omega)
  simpa using hover

theorem exists_cut {row : ℕ → LedgerRow} {block : ℤ} {base : ℕ}
    (hlog : LogInv row block base) {height : ℤ} (hge : -1 ≤ height)
    (hle : height ≤ block) : ∃ cut, Cut row base height cut := by
  obtain ⟨cut, hpos, hbase, hunder, hover, _⟩ := hlog.cut hge hle
  exact ⟨cut, hpos, hbase, hunder, hover⟩

theorem undoWrites_of_ledger {other : Store} (hledger : other.ledger = store.ledger)
    (height : ℤ) (rowID : ℕ) : other.undoWrites height rowID = store.undoWrites height rowID := by
  induction rowID with
  | zero => rfl
  | succ rowID ih => simp only [undoWrites, undoWrite, ih, hledger]

/-- The files after the rollback batch hold the blocks up to the height. -/
theorem committed_undo {block height : ℤ} {base cut : ℕ}
    (hfiles : Committed store.db store.ledger block base) (hge : -1 ≤ height)
    (hle : height ≤ block) (hcut : Cut store.ledger.getRow base height cut) : Committed
      (store.db.commit (store.undoWrites height (base - 1) ++ [.header ⟨height, cut⟩]))
      (store.ledger.setHeader ⟨height, cut⟩) height cut ∧
    (store.db.commit (store.undoWrites height (base - 1)
      ++ [.header ⟨height, cut⟩])).adminMinerList = store.db.adminMinerList := by
  have hcutPos := hcut.pos
  have hcutLe := hcut.le_base
  have hsize := hfiles.size
  have hbound := hfiles.block_lt
  have hend : base - 1 + 1 = base := by omega
  obtain ⟨hindexed, honly, hframe⟩ := undoWrites_spec hcut.pos hcut.under (base - 1)
    store.db (by omega) (fun i hi hlt => hcut.beyond i hi (by omega))
    (by rw [hend]; exact hfiles.log.linked) (by rw [hend]; exact hfiles.index.rows)
  have hlog := hfiles.log.truncate hcut.pos hcut.le_base hle hcut.under hcut.beyond
  rw [PermissionDB.commit_append]
  refine ⟨⟨rfl, rfl, ?_, hge, by omega, ?_, ⟨?_, ?_, ?_, ?_, ?_⟩⟩, honly.list⟩
  · rw [store.ledger.size_setHeader (by omega)]
    omega
  · rw [store.ledger.getRow_setHeader (by omega)]
    exact hlog
  · rw [store.ledger.getRow_setHeader (by omega)]
    exact hindexed
  · intro low last hlow hblockEnd
    rw [store.ledger.getRow_setHeader (by omega)] at hblockEnd
    have hlastLe := hblockEnd.le_base
    obtain ⟨dbRow, hlookup, hledgerRow⟩ := hfiles.index.blockIndex low last (by omega)
      (hblockEnd.congr (by omega) (fun _ _ _ => rfl) fun i hi hlt => by
        by_cases hin : i < cut
        · exact hblockEnd.beyond i hi hin
        have := hcut.beyond i (not_lt.mp hin) hlt
        omega)
    refine ⟨dbRow, (hframe _ fun i hi hlt hkey => ?_).trans hlookup, hledgerRow⟩
    -- an undone block-index row belongs to a higher block
    have hi0 : 0 < i := by omega
    have hin : i < base := by omega
    have hindexKey := hfiles.log.indexKey i hi0 hin (by rw [hkey]; rfl)
    rw [hkey] at hindexKey
    have habove := hcut.beyond i hi hin
    have hreceived := hfiles.log.received_le i hi0 hin
    have hheights := blockIndexKey_inj (by omega) (by omega) hindexKey
    omega
  · intro key htype hentity
    refine (hframe key fun i hi hlt hkey => ?_).trans
      (hfiles.index.indexEntity key htype hentity)
    have hindexKey := hfiles.log.indexKey i (by omega) (by omega) (by rw [hkey]; exact htype)
    rw [hkey] at hindexKey
    exact hentity (congrArg PermKey.entity hindexKey)
  · exact honly.listMarker.trans hfiles.index.listMarker
  intro i hi hlt hadmin
  rw [store.ledger.getRow_setHeader (by omega)] at hadmin ⊢
  show _ ∈ (store.db.commit (store.undoWrites height (base - 1))).adminMinerList
  rw [honly.list]
  exact hfiles.index.list i hi (by omega) hadmin

structure RolledBack (store result : Store) (height : ℤ) (cut : ℕ) : Prop where
  isCut : Cut store.ledger.getRow store.memPoolStart height cut
  block : result.block = height
  row : result.row = cut
  db : result.db = store.db.commit
    (store.undoWrites height (store.memPoolStart - 1) ++ [.header ⟨height, cut⟩])
  ledger : result.ledger = store.ledger.setHeader ⟨height, cut⟩
  getRow : result.ledger.getRow = store.ledger.getRow
  size : result.ledger.size = store.ledger.size
  list : result.db.adminMinerList = store.db.adminMinerList
  atRest : AtRest result

theorem Live.rollBack_spec (hlive : Live store) {height : ℤ} (hge : -1 ≤ height)
    (hle : height ≤ store.block) : ∃ cut, RolledBack store (store.rollBack height) height cut := by
  obtain ⟨cut, hcut⟩ := exists_cut hlive.files.log hge hle
  obtain ⟨minerCount, hclear⟩ := hlive.clearMemPool_eq
  have hsize := hlive.files.size
  have hpos := hlive.files.log.pos
  have hcutRow : store.clearMemPool.cutRow height (store.clearMemPool.row - 1) = cut := by
    rw [hclear]
    exact hcut.cutRow_eq
  obtain ⟨hfiles, hlist⟩ := committed_undo hlive.files hge hle hcut
  let undone : Store :=
    { store.clearMemPool with
      db := store.db.commit (store.undoWrites height (store.memPoolStart - 1)
        ++ [.header ⟨height, cut⟩])
      ledger := store.ledger.setHeader ⟨height, cut⟩
      block := height
      row := cut }
  have hmemPool : undone.memPool = [] := by
    show store.clearMemPool.memPool = []
    rw [hclear]
  have hfork : undone.copiedRow = 0 := by
    show store.clearMemPool.copiedRow = 0
    rw [hclear]
    exact hlive.notForking
  have hledger : store.clearMemPool.ledger = store.ledger := by rw [hclear]
  have hresult : store.rollBack height =
      { undone.updateCounts with
        clearedAdminCount := undone.updateCounts.adminCount
        clearedMinerCount := undone.updateCounts.minerCount } := by
    have hwritten : store.clearMemPool.writeAll (store.clearMemPool.rollBackWrites height) =
        { store.clearMemPool with
          db := undone.db
          ledger := undone.ledger } := by
      rw [rollBackWrites, hcutRow, undoWrites_of_ledger hledger]
      rw [hclear]
      rfl
    unfold rollBack
    simp only [hwritten, hcutRow]
    rfl
  rw [updateCounts_of_files undone hfiles hmemPool hfork] at hresult
  have hget : undone.ledger.getRow = store.ledger.getRow :=
    store.ledger.getRow_setHeader (by omega) _
  refine ⟨cut, hcut, ?_, ?_, ?_, ?_, ?_, ?_, ?_, ?_⟩
  · rw [hresult]
  · rw [hresult]
  · rw [hresult]
  · rw [hresult]
  · rw [hresult]
    exact hget
  · rw [hresult]
    exact store.ledger.size_setHeader (by omega) _
  · rw [hresult]
    exact hlist
  rw [hresult]
  exact ⟨hfiles, hmemPool, hfork, rfl, rfl, rfl, rfl⟩

theorem Live.rollBack (hlive : Live store) {height : ℤ} (hge : -1 ≤ height)
    (hle : height ≤ store.block) : Live (store.rollBack height) := by
  obtain ⟨_, hrolled⟩ := hlive.rollBack_spec hge hle
  exact hrolled.atRest.live

end Store

end Amberchain.Permission
