import Amberchain.Permission.LiveView

/-!
# Runs after a fork verification

The block operations keep equal views equal, so the rest of a run does not depend
on the forks that were verified in it.
-/

namespace Amberchain.Permission

namespace Store

variable (params : ChainParams) {store other : Store}

theorem commit_viewed (db other : PermissionDB) (hrows : other.rows = db.rows)
    (hheader : other.header = db.header) (hmarker : other.listMarker = db.listMarker)
    (batch : List DBWrite) : (other.commit batch).rows = (db.commit batch).rows ∧
      (other.commit batch).header = (db.commit batch).header ∧
      (other.commit batch).listMarker = (db.commit batch).listMarker := by
  induction batch generalizing db other with
  | nil => exact ⟨hrows, hheader, hmarker⟩
  | cons entry batch ih =>
    cases entry with
    | header value => exact ih _ _ hrows rfl hmarker
    | row key value =>
      exact ih _ _ (congrArg (fun rows => rows.insert key value) hrows) hheader hmarker
    | delete key => exact ih _ _ (congrArg (fun rows => rows.erase key) hrows) hheader hmarker
    | listMarker => exact ih _ _ hrows hheader rfl
    | listEntries entries => exact ih _ _ hrows hheader hmarker
    | blockMiner hash value => exact ih _ _ hrows hheader hmarker
    | grants hash recordID offsets => exact ih _ _ hrows hheader hmarker

theorem writeDisk_liveView (write : DiskWrite) :
    (store.liveView.writeDisk write).liveView = (store.writeDisk write).liveView := by
  cases write with
  | ledgerRow rowID row => rfl
  | ledgerHeader header => rfl
  | dbCommit batch =>
    have hcommitted : (store.liveView.db.commit batch).rows = (store.db.commit batch).rows ∧
        (store.liveView.db.commit batch).header = (store.db.commit batch).header ∧
        (store.liveView.db.commit batch).listMarker = (store.db.commit batch).listMarker :=
      commit_viewed store.db store.liveView.db rfl rfl rfl batch
    obtain ⟨hrows, hheader, hmarker⟩ := hcommitted
    simp only [writeDisk, liveView]
    simp only [liveView] at hrows hheader hmarker
    rw [hrows, hheader, hmarker]

theorem writeRecords_liveView {batch : List DBWrite}
    (hbatch : ∀ entry ∈ batch, isRecordWrite entry = true) :
    (store.writeDisk (.dbCommit batch)).liveView = store.liveView := by
  have hrecords := recordsAdded_commit batch store.db hbatch
  simp only [writeDisk, liveView, hrecords.rows, hrecords.header, hrecords.listMarker]

theorem storeBlockInfoInternal_liveView (miner : Hash160) (hash : Hash256) :
    (store.storeBlockInfoInternal params miner hash false).liveView = store.liveView := by
  unfold storeBlockInfoInternal
  split
  · have hminer : ∀ entry ∈ [DBWrite.blockMiner hash
        ⟨miner, (store.writeDisk (.dbCommit (store.grantBatch hash))).adminMinerCount⟩],
        isRecordWrite entry = true := by
      intro entry hentry
      rw [List.mem_singleton.mp hentry]
      rfl
    exact (writeRecords_liveView hminer).trans
      (writeRecords_liveView (isRecordWrite_grantBatch store hash))
  rfl

namespace SameView

variable (hview : SameView store other)

include hview

theorem writeDisk (write : DiskWrite) :
    SameView (store.writeDisk write) (other.writeDisk write) := by
  unfold SameView
  rw [← writeDisk_liveView, ← @writeDisk_liveView other]
  exact congrArg (fun view : Store => (view.writeDisk write).liveView) hview

theorem writeAll (writes : List DiskWrite) :
    SameView (store.writeAll writes) (other.writeAll writes) := by
  induction writes generalizing store other with
  | nil => exact hview
  | cons write writes ih => exact ih (hview.writeDisk write)

theorem clearMemPool (hlive : Live store) (hother : Live other) :
    SameView store.clearMemPool other.clearMemPool := by
  obtain ⟨minerCount, hclear⟩ := hlive.clearMemPool_eq
  obtain ⟨minerCount', hclear'⟩ := hother.clearMemPool_eq
  have hdropped := congrArg (fun view : Store =>
    { view with
      memPool := []
      row := view.memPoolStart
      adminCount := view.clearedAdminCount
      minerCount := view.clearedMinerCount }) hview
  rw [hclear, hclear']
  exact hdropped

theorem minerRow (hfork : store.copiedRow = 0) (miner : Hash160) (hash : Hash256) :
    other.minerRow miner hash = store.minerRow miner hash := by
  have hchange : other.isGovernanceChange = store.isGovernanceChange := by
    funext row
    have hnext := hview.read fun view : Store =>
      followToConsensus view.memPool view.memPool.length row
    have hblock : other.nextBlock = store.nextBlock := hview.read Store.nextBlock
    change followToConsensus other.memPool other.memPool.length row =
      followToConsensus store.memPool store.memPool.length row at hnext
    unfold isGovernanceChange
    rw [hnext, hblock, hview.permissionRow hfork]
  have hflags : other.blockFlags miner = store.blockFlags miner := by
    have hpool : other.memPool = store.memPool := hview.read Store.memPool
    unfold Store.blockFlags calculateBlockFlags
    rw [hview.permissionRow hfork, hchange, hpool]
  have hrow := hview.read fun view : Store => view.blockRow (blockMinerKey miner) hash
    (store.permissionRow (blockMinerKey miner) true).thisRow view.row
    (store.blockFlags miner)
  unfold Store.minerRow
  rw [hview.permissionRow hfork, hflags]
  exact hrow

theorem addBlockRows (hfork : store.copiedRow = 0) (miner : Hash160) (hash : Hash256) :
    SameView (store.addBlockRows miner hash) (other.addBlockRows miner hash) := by
  have hflags : other.blockFlags miner = store.blockFlags miner :=
    congrArg LedgerRow.blockFlags (hview.minerRow hfork miner hash)
  have hindex := hview.read fun view : Store =>
    view.blockRow (blockIndexKey view.nextBlock) hash (view.memPoolStart - 1) (view.row + 1)
      (store.blockFlags miner)
  have hrows : other.indexRow miner hash = store.indexRow miner hash := by
    unfold Store.indexRow
    rw [hflags]
    exact hindex
  unfold Store.addBlockRows
  rw [hview.minerRow hfork, hrows]
  exact congrArg (fun view : Store =>
    { view with
      memPool := view.memPool ++ [store.minerRow miner hash, store.indexRow miner hash]
      row := view.row + 2 }) hview

/-- Both stores count the same log at the new height. -/
theorem commit (hlive : Live store) (hother : Live other) (miner : Hash160) (hash : Hash256) :
    SameView (store.commit params miner hash) (other.commit params miner hash) := by
  have hfilled := hview.addBlockRows hlive.notForking miner hash
  have hwrites : (other.addBlockRows miner hash).commitWrites =
      (store.addBlockRows miner hash).commitWrites := hfilled.read Store.commitWrites
  have hfiles : SameView (store.commitFiles miner hash) (other.commitFiles miner hash) := by
    unfold commitFiles
    dsimp only
    rw [hwrites]
    exact hfilled.writeAll _
  have hcounted : SameView (store.commitFiles miner hash).countCommitted
      (other.commitFiles miner hash).countCommitted := by
    have hcount : ∀ type, blockCount (other.addBlockRows miner hash) type =
        blockCount (store.addBlockRows miner hash) type :=
      fun type => hfilled.read fun view => blockCount view type
    have hstamps := congrArg (fun view : Store =>
      { view with
        adminCount := blockCount (store.addBlockRows miner hash) MC_PTP_ADMIN
        minerCount := blockCount (store.addBlockRows miner hash) MC_PTP_MINE
        clearedAdminCount := blockCount (store.addBlockRows miner hash) MC_PTP_ADMIN
        clearedMinerCount := blockCount (store.addBlockRows miner hash) MC_PTP_MINE }) hfiles
    rw [countCommitted_eq (hlive.countable miner hash) (hlive.blockWritten miner hash),
      countCommitted_eq (hother.countable miner hash) (hother.blockWritten miner hash),
      hcount, hcount]
    exact hstamps
  have hstamped : SameView (store.commitCounts miner hash) (other.commitCounts miner hash) := by
    have hcountWrites : (other.commitFiles miner hash).countCommitted.countWrites =
        (store.commitFiles miner hash).countCommitted.countWrites :=
      hcounted.read Store.countWrites
    unfold commitCounts
    dsimp only
    rw [hcountWrites]
    exact hcounted.writeAll _
  have hcleared := congrArg (fun view : Store => { view with memPool := [] }) hstamped
  have hstored : SameView
      ({ store.commitCounts miner hash with
        memPool := [] }.storeBlockInfoInternal params miner hash false)
      ({ other.commitCounts miner hash with
        memPool := [] }.storeBlockInfoInternal params miner hash false) := by
    unfold SameView
    rw [storeBlockInfoInternal_liveView, storeBlockInfoInternal_liveView]
    exact hcleared
  exact congrArg (fun view : Store => view.setBlock (view.block + 1)) hstored

end SameView

def rolledFiles (store : Store) (height : ℤ) : Store :=
  { store.clearMemPool.writeAll (store.clearMemPool.rollBackWrites height) with
    block := height
    row := store.clearMemPool.cutRow height (store.clearMemPool.row - 1) }

/-- After a rollback the counts are those of the log that is left. -/
theorem Live.rollBack_eq (hlive : Live store) {height : ℤ} (hge : -1 ≤ height)
    (hle : height ≤ store.block) : store.rollBack height =
      let files := store.rolledFiles height
      let admins := countAt files.ledger.getRow MC_PTP_ADMIN files.row files.nextBlock
      let miners := countAt files.ledger.getRow MC_PTP_MINE files.row files.nextBlock
      { files with
        adminCount := admins
        minerCount := miners
        clearedAdminCount := admins
        clearedMinerCount := miners } := by
  obtain ⟨minerCount, hclear⟩ := hlive.clearMemPool_eq
  obtain ⟨cut, hrolled⟩ := hlive.rollBack_spec hge hle
  have hmarker : (store.rolledFiles height).db.listMarker = true := by
    have hcleared : store.clearMemPool.db.listMarker = true := by
      rw [hclear]
      exact hlive.files.index.listMarker
    exact commit_listMarker _ hcleared
  obtain ⟨admins, miners, hcounts⟩ := updateCounts_of_marker hmarker
  have hresult : store.rollBack height =
      { store.rolledFiles height with
        adminCount := admins
        minerCount := miners
        clearedAdminCount := admins
        clearedMinerCount := miners } := by
    have hrollBack : store.rollBack height =
        { (store.rolledFiles height).updateCounts with
          clearedAdminCount := (store.rolledFiles height).updateCounts.adminCount
          clearedMinerCount := (store.rolledFiles height).updateCounts.minerCount } :=
      rfl
    rw [hrollBack, hcounts]
  have hadmins := hrolled.atRest.admins
  have hminers := hrolled.atRest.miners
  rw [hresult] at hadmins hminers ⊢
  dsimp only at hadmins hminers ⊢
  rw [hadmins, hminers]
  rfl

namespace SameView

variable (hview : SameView store other) (hlive : Live store) (hother : Live other)

include hview hlive hother

theorem rollBack {height : ℤ} (hge : -1 ≤ height) (hle : height ≤ store.block) :
    SameView (store.rollBack height) (other.rollBack height) := by
  have hblock : other.block = store.block := hview.read Store.block
  have hcleared := hview.clearMemPool hlive hother
  have hwrites : other.clearMemPool.rollBackWrites height =
      store.clearMemPool.rollBackWrites height := by
    have hrow : other.clearMemPool.row = store.clearMemPool.row := hcleared.read Store.row
    have hledger : other.clearMemPool.ledger = store.clearMemPool.ledger :=
      hcleared.read Store.ledger
    unfold rollBackWrites cutRow
    rw [undoWrites_of_ledger hledger, hledger, hrow]
  have hcut : other.clearMemPool.cutRow height (other.clearMemPool.row - 1) =
      store.clearMemPool.cutRow height (store.clearMemPool.row - 1) :=
    hcleared.read fun view => view.cutRow height (view.row - 1)
  have hwritten := hcleared.writeAll (store.clearMemPool.rollBackWrites height)
  have hfiles : SameView (store.rolledFiles height) (other.rolledFiles height) := by
    unfold rolledFiles
    rw [hwrites, hcut]
    exact congrArg (fun view : Store =>
      { view with
        block := height
        row := store.clearMemPool.cutRow height (store.clearMemPool.row - 1) }) hwritten
  rw [hlive.rollBack_eq hge hle, hother.rollBack_eq hge (hblock ▸ hle)]
  exact congrArg (fun files : Store =>
    let admins := countAt files.ledger.getRow MC_PTP_ADMIN files.row files.nextBlock
    let miners := countAt files.ledger.getRow MC_PTP_MINE files.row files.nextBlock
    { files with
      adminCount := admins
      minerCount := miners
      clearedAdminCount := admins
      clearedMinerCount := miners }) hfiles

omit hview hlive hother in
/-- The last steps of `Initialize` look at the end of the ledger only. -/
theorem checkEnd {counted counted' : Store} (hcounted : SameView counted counted') :
    let finish (counted : Store) : Store × Option McError :=
      if counted.row - 1 = 0 then (counted, none)
      else if addressText (counted.ledger.getRow (counted.row - 1)).key.address
          ≠ addressText (blockRowAddress counted.height) then
        (counted, some .dbOpenError)
      else (counted.restampCounts, none)
    SameView (finish counted).1 (finish counted').1 := by
  have hrow : counted'.row = counted.row := hcounted.read Store.row
  have hledger : counted'.ledger = counted.ledger := hcounted.read Store.ledger
  have hheight : counted'.height = counted.height := hcounted.read Store.height
  have hstamped : SameView counted.restampCounts counted'.restampCounts :=
    congrArg restampCounts hcounted
  dsimp only
  rw [hrow, hledger, hheight]
  split
  · exact hcounted
  split
  · exact hcounted
  exact hstamped

theorem restart : SameView (initializeFrom store.db store.ledger).1
    (initializeFrom other.db other.ledger).1 := by
  have hblock : other.block = store.block := hview.read Store.block
  have hstart : other.memPoolStart = store.memPoolStart := hview.read Store.memPoolStart
  have hledger : other.ledger = store.ledger := hview.read Store.ledger
  have hrows : other.db.rows = store.db.rows := hview.read fun view => view.db.rows
  have hheader : other.db.header = store.db.header := hview.read fun view => view.db.header
  have hmarker : other.db.listMarker = store.db.listMarker :=
    hview.read fun view => view.db.listMarker
  have hfiles := hlive.files
  have hfiles' := hother.files
  rw [hledger, hblock, hstart] at hfiles'
  have hopen : SameView (opened store.db store.ledger ⟨store.block, store.memPoolStart⟩)
      (opened other.db store.ledger ⟨store.block, store.memPoolStart⟩) := by
    simp only [SameView, liveView, opened, zero, hrows, hheader, hmarker]
  have hcounted := congrArg (fun view : Store =>
    { view with
      adminCount := countAt store.ledger.getRow MC_PTP_ADMIN store.memPoolStart view.nextBlock
      minerCount := countAt store.ledger.getRow MC_PTP_MINE store.memPoolStart view.nextBlock
      clearedAdminCount :=
        countAt store.ledger.getRow MC_PTP_ADMIN store.memPoolStart view.nextBlock
      clearedMinerCount :=
        countAt store.ledger.getRow MC_PTP_MINE store.memPoolStart view.nextBlock }) hopen
  rw [hledger, initializeFrom_of_headers hfiles.dbHeader hfiles.ledgerHeader hfiles.size,
    initializeFrom_of_headers hfiles'.dbHeader hfiles'.ledgerHeader hfiles'.size,
    updateCounts_of_files _ (show Committed (opened store.db store.ledger
      ⟨store.block, store.memPoolStart⟩).db _ _ _ from hfiles) rfl rfl,
    updateCounts_of_files _ (show Committed (opened other.db store.ledger
      ⟨store.block, store.memPoolStart⟩).db _ _ _ from hfiles') rfl rfl]
  exact SameView.checkEnd hcounted

theorem apply {op : Op} (hop : store.Allowed op) :
    SameView (store.apply params op) (other.apply params op) := by
  have hblock : other.block = store.block := hview.read Store.block
  cases op with
  | call call => exact hview.call params hlive.notForking call
  | accept steps =>
    have hstart : SameView store.setCheckPoint other.setCheckPoint :=
      congrArg Store.setCheckPoint hview
    exact hstart.acceptSteps params hlive.setCheckPoint steps
  | clearMemPool => exact hview.clearMemPool hlive hother
  | checkBlock =>
    exact hlive.checkBlock_spec.1.symm.trans (hview.trans hother.checkBlock_spec.1)
  | commit miner hash => exact hview.commit params hlive hother miner hash
  | rollBack height => exact hview.rollBack hlive hother hop.1 hop.2
  | verifyFork height steps =>
    have hfork : (height : ℤ) ≤ other.block := hblock ▸ hop
    exact (hlive.verifyFork_spec params hop steps).1.symm.trans
      (hview.trans (hother.verifyFork_spec params hfork steps).1)
  | restart => exact hview.restart hlive hother

end SameView

def applyAll (store : Store) (ops : List Op) : Store :=
  ops.foldl (Store.apply params) store

def AllowedAll (store : Store) : List Op → Prop
  | [] => True
  | op :: ops => store.Allowed op ∧ AllowedAll (store.apply params op) ops

theorem SameView.applyAll (hview : SameView store other) (hlive : Live store)
    (hother : Live other) (ops : List Op) (hops : store.AllowedAll params ops) :
    SameView (store.applyAll params ops) (other.applyAll params ops) ∧
      Live (store.applyAll params ops) ∧ Live (other.applyAll params ops) := by
  induction ops generalizing store other with
  | nil => exact ⟨hview, hlive, hother⟩
  | cons op ops ih =>
    have hallowed : other.Allowed op := by
      have hblock : other.block = store.block := hview.read Store.block
      have hop := hops.1
      cases op <;> simp only [Allowed, hblock] at hop ⊢ <;> exact hop
    exact ih (hview.apply params hlive hother hops.1) (hlive.apply params hops.1)
      (hother.apply params hallowed) hops.2

def GrantsListed (store : Store) : Prop :=
  ∀ row ∈ store.memPool, isAdminMinerKey row.key = true →
    (row.key.address, row.key.type) ∈ store.db.adminMinerList

/-- Over listed grants `UpdateCounts` counts the log with the mempool. -/
theorem Live.updateCounts_listed (hlive : Live store) (hlisted : store.GrantsListed) :
    store.updateCounts = { store with
        adminCount := countAt store.logRow MC_PTP_ADMIN store.row store.nextBlock
        minerCount := countAt store.logRow MC_PTP_MINE store.row store.nextBlock } := by
  have hend := hlive.pool.start_add_length
  have hlist : ∀ i, 0 < i → i < store.row → isAdminMinerKey (store.logRow i).key = true →
      ((store.logRow i).key.address, (store.logRow i).key.type) ∈ store.db.adminMinerList := by
    intro i hi hlt hadmin
    by_cases hbelow : i < store.memPoolStart
    · rw [logRow_of_lt hbelow] at hadmin ⊢
      exact hlive.files.index.list i hi hbelow hadmin
    have hpool : i - store.memPoolStart < store.memPool.length := by omega
    have hrow := logRow_memPool hpool
    rw [Nat.add_sub_cancel' (not_lt.mp hbelow)] at hrow
    rw [hrow] at hadmin ⊢
    exact hlisted _ (List.getElem_mem hpool) hadmin
  exact updateCounts_eq store store.logRow store.row hlive.files.index.listMarker hlive.notForking
    (fun address type htype => hlive.pool.rowAt (ne_blockIndex_of_type htype)
      (hlive.showsBelow (ne_blockIndex_of_type htype)))
    fun address type htype hrow => mem_list_of_newestRow hlist htype hrow

theorem SameView.updateCounts (hview : SameView store other) (hlive : Live store)
    (hother : Live other) (hlisted : store.GrantsListed) (hlisted' : other.GrantsListed) :
    SameView store.updateCounts other.updateCounts := by
  rw [hlive.updateCounts_listed hlisted, hother.updateCounts_listed hlisted']
  exact congrArg (fun view : Store =>
    { view with
      adminCount := countAt view.logRow MC_PTP_ADMIN view.row view.nextBlock
      minerCount := countAt view.logRow MC_PTP_MINE view.row view.nextBlock }) hview

/-- What a reader can tell of a store: the fields of the live state, the lookups,
and the counts `UpdateCounts` comes to when the grants of the mempool are
listed. -/
structure SameReads (store other : Store) : Prop where
  block : other.block = store.block
  row : other.row = store.row
  memPool : other.memPool = store.memPool
  adminCount : other.adminCount = store.adminCount
  minerCount : other.minerCount = store.minerCount
  clearedAdminCount : other.clearedAdminCount = store.clearedAdminCount
  clearedMinerCount : other.clearedMinerCount = store.clearedMinerCount
  getPermission : ∀ key checkMempool,
    other.getPermission key checkMempool = store.getPermission key checkMempool
  canMine : ∀ entity address,
    other.canMine params entity address = store.canMine params entity address
  updateCounts : store.GrantsListed → other.GrantsListed →
    other.updateCounts.adminCount = store.updateCounts.adminCount ∧
    other.updateCounts.minerCount = store.updateCounts.minerCount

theorem SameView.sameReads (hview : SameView store other) (hlive : Live store)
    (hother : Live other) : SameReads params store other where
  block := hview.read Store.block
  row := hview.read Store.row
  memPool := hview.read Store.memPool
  adminCount := hview.read Store.adminCount
  minerCount := hview.read Store.minerCount
  clearedAdminCount := hview.read Store.clearedAdminCount
  clearedMinerCount := hview.read Store.clearedMinerCount
  getPermission := hview.getPermission hlive.notForking
  canMine := hview.canMine params hlive.notForking
  updateCounts := fun hlisted hlisted' =>
    have hcounted := hview.updateCounts hlive hother hlisted hlisted'
    ⟨hcounted.read Store.adminCount, hcounted.read Store.minerCount⟩

/-- A verified fork cannot be told from the outside: right after the session and
after any later run, the store reads as if there had been no session. -/
theorem verifyFork_sameReads (hreach : Reachable params store) {height : ℕ}
    (hheight : (height : ℤ) ≤ store.block) (steps : List ForkStep) (later : List Op)
    (hlater : store.AllowedAll params later) : SameReads params (store.applyAll params later)
      ((store.verifyFork params height steps).applyAll params later) := by
  have hlive := hreach.live
  obtain ⟨hview, hrecords⟩ := hlive.verifyFork_spec params hheight steps
  obtain ⟨hlast, hlast', hlast''⟩ :=
    hview.applyAll params hlive (hview.live hlive hrecords) later hlater
  exact hlast.sameReads params hlast' hlast''

theorem minedOnce_verifyFork : SameReads .defaults minedOnce
    (minedOnce.verifyFork .defaults 0 [.grant secondMinerGrant, .storeInfo firstMiner 2]) :=
  verifyFork_sameReads .defaults minedOnce_reachable (by decide +kernel) _ [] trivial

/-- A direct `UpdateCounts` over a mempool grant that is not on the list yet does
not count it, unless a verified fork has listed the same grant. -/
theorem verifyFork_listed_grant :
    ¬ ∀ (params : ChainParams) (store : Store) (height : ℕ) (steps : List ForkStep),
      Reachable params store → (height : ℤ) ≤ store.block →
      (store.verifyFork params height steps).updateCounts.minerCount =
        store.updateCounts.minerCount := by
  intro hcounts
  have hsame := hcounts .defaults (minedOnce.call .defaults (.grant secondMinerGrant)) 0
    [.grant secondMinerGrant, .storeInfo firstMiner 2]
    (minedOnce_reachable.apply (.call (.grant secondMinerGrant)) trivial) (by decide +kernel)
  revert hsame
  decide +kernel

end Store

end Amberchain.Permission
