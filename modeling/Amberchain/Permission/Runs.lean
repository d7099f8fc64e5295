import Amberchain.Permission.ForkSession

/-!
# Runs of the permission store

The operations that the node performs on the store, the states they reach from
empty files, and the invariant that holds in each of them.
-/

namespace Amberchain.Permission

/-- A call that adds rows to the mempool. -/
inductive Call where
  | grant (grant : Grant)
  | approve (approval : Store.Approval)

/-- What happens to the store while one transaction is processed. -/
inductive AcceptStep where
  | call (call : Call)
  | checkPoint
  | rollBack

/-- An operation of the node on the store. -/
inductive Op where
  | call (call : Call)
  | accept (steps : List AcceptStep)
  | clearMemPool
  | checkBlock
  | commit (miner : Hash160) (hash : Hash256)
  | rollBack (height : ℤ)
  | verifyFork (height : ℕ) (steps : List ForkStep)
  | restart

namespace Store

variable (params : ChainParams)

def call (store : Store) : Call → Store
  | .grant grant => (store.setPermission params grant).1
  | .approve approval => (store.setApproval params approval).1

def acceptStep (store : Store) : AcceptStep → Store
  | .call call => store.call params call
  | .checkPoint => store.setCheckPoint
  | .rollBack => store.rollBackToCheckPoint

/-- A transaction is processed behind a checkpoint. -/
def accept (store : Store) (steps : List AcceptStep) : Store :=
  steps.foldl (acceptStep params) store.setCheckPoint

/-- `CheckBlockPermissions` sets the mempool aside while it reads. -/
def checkBlock (store : Store) : Store :=
  store.copyMemPool.clearMemPool.restoreMemPool

def apply (store : Store) : Op → Store
  | .call call => store.call params call
  | .accept steps => store.accept params steps
  | .clearMemPool => store.clearMemPool
  | .checkBlock => store.checkBlock
  | .commit miner hash => store.commit params miner hash
  | .rollBack height => store.rollBack height
  | .verifyFork height steps => store.verifyFork params height steps
  | .restart => (initializeFrom store.db store.ledger).1

/-- When the node may perform the operation: heights stay in the signed 32-bit
range, and a rollback or a fork goes back to a block of the chain. -/
def Allowed (store : Store) : Op → Prop
  | .commit _ _ => store.block + 1 < 2 ^ 31
  | .rollBack height => -1 ≤ height ∧ height ≤ store.block
  | .verifyFork height _ => (height : ℤ) ≤ store.block
  | _ => True

/-- The states reached from empty files. -/
inductive Reachable : Store → Prop where
  | start : Reachable (initializeFrom .empty .empty).1
  | apply {store : Store} (op : Op) (hstore : Reachable store)
      (hop : store.Allowed op) : Reachable (store.apply params op)

def CallKey : Call → PermKey → Prop
  | .grant grant, key => GrantKey grant key
  | .approve _, key => key.entity = upgradeEntity

theorem call_adds {store : Store} {motive : Store → Prop} (call : Call)
    (hstep : ∀ store row next, motive store → store.Adds row next →
      CallKey call row.key → motive next)
    (hstore : motive store) : motive (store.call params call) := by
  cases call with
  | grant grant => exact setPermission_adds params grant hstep hstore
  | approve approval => exact setApproval_adds params approval hstep hstore

theorem call_induct {store : Store} {motive : Store → Prop} (call : Call)
    (hstep : ∀ store row next, motive store → store.Appended row next → motive next)
    (hstore : motive store) : motive (store.call params call) :=
  call_adds params call
    (fun store row next h hadds _ => hstep store row next h hadds.appended) hstore

theorem Live.call {store : Store} (hlive : Live store) (call : Call) :
    Live (store.call params call) :=
  call_induct params call (fun _ _ _ h happ => h.append happ) hlive

theorem committed_of_records {db other : PermissionDB} {ledger : PermissionLedger}
    {block : ℤ} {base : ℕ} (hfiles : Committed db ledger block base)
    (hrecords : RecordsAdded db other) : Committed other ledger block base := by
  refine ⟨hrecords.header.trans hfiles.dbHeader, hfiles.ledgerHeader, hfiles.size,
    hfiles.block_ge, hfiles.block_lt, hfiles.log, ⟨?_, ?_, ?_, ?_, ?_⟩⟩
  · intro key htype
    rw [hrecords.rows]
    exact hfiles.index.rows key htype
  · intro height last hheight hend
    rw [hrecords.rows]
    exact hfiles.index.blockIndex height last hheight hend
  · intro key htype hentity
    rw [hrecords.rows]
    exact hfiles.index.indexEntity key htype hentity
  · exact hrecords.listMarker.trans hfiles.index.listMarker
  exact fun i hi hlt hadmin => hrecords.list (hfiles.index.list i hi hlt hadmin)

variable {store : Store}

/-- Records, checkpoints and copies do not matter outside a session. -/
theorem Live.of_frame {other : Store} (hlive : Live store)
    (hrecords : RecordsAdded store.db other.db) (hframe : other = { store with
        db := other.db
        checkPointRow := other.checkPointRow
        checkPointAdminCount := other.checkPointAdminCount
        checkPointMinerCount := other.checkPointMinerCount
        checkPointMemPoolSize := other.checkPointMemPoolSize
        clearedMinerCountForMinerVerification := other.clearedMinerCountForMinerVerification
        copiedBlock := other.copiedBlock
        forkBlock := other.forkBlock
        copiedAdminCount := other.copiedAdminCount
        copiedMinerCount := other.copiedMinerCount
        copiedMemPool := other.copiedMemPool }) : Live other := by
  have hfiles := committed_of_records hlive.files hrecords
  rw [hframe]
  exact ⟨hfiles, ⟨⟨hlive.pool.le_row, hlive.pool.thisRow, hlive.pool.linked⟩,
    hlive.pool.received⟩, hlive.grantType, hlive.notForking, hlive.clearedAdmins,
    hlive.clearedMiners, hlive.counts⟩

theorem SameView.live {other : Store} (hview : SameView store other) (hlive : Live store)
    (hrecords : RecordsAdded store.db other.db) : Live other := by
  refine hlive.of_frame hrecords ?_
  cases other
  simp only [SameView, liveView, mk.injEq] at hview ⊢
  tauto

structure CheckPointed (store : Store) : Prop where
  live : Live store
  size_le : store.checkPointMemPoolSize ≤ store.memPool.length
  row : store.checkPointRow = store.memPoolStart + store.checkPointMemPoolSize
  counts : store.checkPointMemPoolSize = 0 →
    store.checkPointAdminCount = store.clearedAdminCount ∧
    store.checkPointMinerCount = store.clearedMinerCount

theorem Live.setCheckPoint (hlive : Live store) : CheckPointed store.setCheckPoint := by
  have hend := hlive.pool.start_add_length
  refine ⟨hlive.of_frame (RecordsAdded.refl _) rfl, le_rfl, hend.symm, fun hnone => ?_⟩
  exact hlive.counts (List.eq_nil_of_length_eq_zero hnone)

section

variable (hpoint : CheckPointed store)

include hpoint

/-- Rows behind the checkpoint leave it in place. -/
theorem CheckPointed.append {row : LedgerRow} {next : Store}
    (happ : store.Appended row next) : CheckPointed next := by
  have hlive := hpoint.live.append happ
  have hcleared : next.clearedAdminCount = store.clearedAdminCount ∧
      next.clearedMinerCount = store.clearedMinerCount := by
    have hold := hpoint.live
    have hnew := hlive
    have hstart := hold.append_memPoolStart happ
    have hnext : next.nextBlock = store.nextBlock := by
      rw [nextBlock, nextBlock, happ.block_eq]
    refine ⟨?_, ?_⟩
    · rw [hnew.clearedAdmins, hold.clearedAdmins, happ.ledger_eq, hstart, hnext]
    · rw [hnew.clearedMiners, hold.clearedMiners, happ.ledger_eq, hstart, hnext]
  have hsize := hpoint.size_le
  obtain ⟨_, _, _, _, _, hnext⟩ := happ.eq_update
  have hsizeEq : next.checkPointMemPoolSize = store.checkPointMemPoolSize := by rw [hnext]
  have hrowEq : next.checkPointRow = store.checkPointRow := by rw [hnext]
  have hadmins : next.checkPointAdminCount = store.checkPointAdminCount := by rw [hnext]
  have hminers : next.checkPointMinerCount = store.checkPointMinerCount := by rw [hnext]
  refine ⟨hlive, ?_, ?_, fun hnone => ?_⟩
  · rw [hsizeEq, happ.memPool, List.length_append]
    exact hsize.trans (Nat.le_add_right _ _)
  · have hlength : next.memPool.length = store.memPool.length + 1 := by
      rw [happ.memPool, List.length_append, List.length_singleton]
    have hrow := hpoint.row
    rw [hsizeEq, hrowEq, hrow]
    unfold memPoolStart
    rw [happ.row_eq, hlength, Nat.add_sub_add_right]
  rw [hsizeEq] at hnone
  rw [hadmins, hminers, hcleared.1, hcleared.2]
  exact hpoint.counts hnone

theorem CheckPointed.rollBackToCheckPoint_start :
    store.rollBackToCheckPoint.memPoolStart = store.memPoolStart := by
  have hlength : store.rollBackToCheckPoint.memPool.length = store.checkPointMemPoolSize :=
    List.length_take_of_le hpoint.size_le
  have hlast : store.rollBackToCheckPoint.row = store.checkPointRow := rfl
  rw [memPoolStart, hlength, hlast, hpoint.row, Nat.add_sub_cancel]

theorem CheckPointed.rollBackToCheckPoint_logRow {i : ℕ}
    (hlt : i < store.checkPointRow) : store.logRow i = store.rollBackToCheckPoint.logRow i := by
  have hsize := hpoint.size_le
  have hrow := hpoint.row
  have hstart := hpoint.rollBackToCheckPoint_start
  have hlength : store.rollBackToCheckPoint.memPool.length = store.checkPointMemPoolSize :=
    List.length_take_of_le hsize
  by_cases hbelow : i < store.memPoolStart
  · rw [logRow_of_lt hbelow, logRow_of_lt (by rwa [hstart])]
    rfl
  rw [logRow_of_ge (not_lt.mp hbelow), logRow_of_ge (by rw [hstart]; exact not_lt.mp hbelow),
    hstart]
  have hshort : i - store.memPoolStart < store.rollBackToCheckPoint.memPool.length := by
    omega
  rw [List.getD_eq_getElem _ _ hshort,
    List.getD_eq_getElem _ _ (show i - store.memPoolStart < store.memPool.length by omega)]
  exact List.getElem_take.symm

/-- Cutting the mempool at the checkpoint keeps the rows before it. -/
theorem CheckPointed.rollBackToCheckPoint :
    CheckPointed store.rollBackToCheckPoint := by
  have hlive := hpoint.live
  have hsize := hpoint.size_le
  have hrow := hpoint.row
  have hend := hlive.pool.start_add_length
  have hpos := hlive.pool.start_pos
  have hlength : store.rollBackToCheckPoint.memPool.length = store.checkPointMemPoolSize :=
    List.length_take_of_le hsize
  have hlast : store.rollBackToCheckPoint.row = store.checkPointRow := rfl
  have hstart := hpoint.rollBackToCheckPoint_start
  have hlog : ∀ i, i < store.checkPointRow → store.logRow i = store.rollBackToCheckPoint.logRow i :=
    fun i hlt => hpoint.rollBackToCheckPoint_logRow hlt
  refine ⟨⟨?_, ⟨⟨?_, ?_, ?_⟩, ?_⟩, ?_, hlive.notForking, ?_, ?_, ?_⟩, hlength.ge, ?_, hpoint.counts⟩
  · rw [hstart]
    exact hlive.files
  · omega
  · intro i hge hlt
    rw [hstart] at hge
    rw [← hlog i hlt]
    exact hlive.pool.thisRow i hge (by omega)
  · exact fun key htype => ((hlive.pool.linked key htype).mono (by omega)).congr
      (fun i _ hlt => by rw [keyAt, keyAt, hlog i hlt])
      fun i _ hlt => by rw [prevAt, prevAt, hlog i hlt]
  · intro i hge hlt
    rw [hstart] at hge
    rw [← hlog i hlt]
    exact hlive.pool.received i hge (by omega)
  · exact fun row hmem => hlive.grantType row (List.mem_of_mem_take hmem)
  · rw [hstart]
    exact hlive.clearedAdmins
  · rw [hstart]
    exact hlive.clearedMiners
  · intro hempty
    rw [hempty] at hlength
    exact hpoint.counts hlength.symm
  rw [hstart]
  exact hrow

theorem CheckPointed.acceptStep (step : AcceptStep) :
    CheckPointed (store.acceptStep params step) := by
  cases step with
  | call call => exact call_induct params call (fun _ _ _ h happ => h.append happ) hpoint
  | checkPoint => exact hpoint.live.setCheckPoint
  | rollBack => exact hpoint.rollBackToCheckPoint

end

theorem Live.accept (hlive : Live store) (steps : List AcceptStep) :
    Live (store.accept params steps) := by
  have hsteps : ∀ (steps : List AcceptStep) (store : Store), CheckPointed store →
      CheckPointed (steps.foldl (Store.acceptStep params) store) := by
    intro steps
    induction steps with
    | nil => exact fun store hpoint => hpoint
    | cons step steps ih => exact fun store hpoint => ih _ (hpoint.acceptStep params step)
  exact (hsteps steps _ hlive.setCheckPoint).live

/-- The mempool comes back row by row, with its counts. -/
theorem Live.checkBlock_spec (hlive : Live store) :
    SameView store store.checkBlock ∧ store.checkBlock.db = store.db := by
  have hcopied : Live store.copyMemPool := hlive.of_frame (RecordsAdded.refl _) rfl
  have hend := hlive.pool.start_add_length
  obtain ⟨first, hfirst⟩ := hcopied.clearMemPool_eq
  obtain ⟨second, hsecond⟩ := hcopied.clearMemPool_atRest.live.clearMemPool_eq
  have hstart : store.copyMemPool.clearMemPool.memPoolStart = store.memPoolStart := by
    rw [hfirst]
    rfl
  have hlength : store.copyMemPool.copiedMemPool.length = store.memPool.length := rfl
  refine ⟨?_, ?_⟩
  · unfold SameView checkBlock restoreMemPool restoreCopied
    rw [hsecond, hstart]
    simp only [hfirst, liveView, List.nil_append, hlength, hend]
    rfl
  unfold checkBlock restoreMemPool restoreCopied
  simp only [hfirst]
  rfl

theorem Live.apply (hlive : Live store) {op : Op} (hop : store.Allowed op) :
    Live (store.apply params op) := by
  cases op with
  | call call => exact hlive.call params call
  | accept steps => exact hlive.accept params steps
  | clearMemPool => exact hlive.clearMemPool_atRest.live
  | checkBlock =>
    obtain ⟨hview, hdb⟩ := hlive.checkBlock_spec
    exact hview.live hlive (hdb ▸ RecordsAdded.refl _)
  | commit miner hash => exact hlive.commit params miner hash hop
  | rollBack height => exact hlive.rollBack hop.1 hop.2
  | verifyFork height steps =>
    obtain ⟨hview, hrecords⟩ := hlive.verifyFork_spec params hop steps
    exact hview.live hlive hrecords
  | restart => exact (initializeFrom_committed hlive.files).atRest.live

theorem Reachable.live (hreach : Reachable params store) : Live store := by
  induction hreach with
  | start =>
    exact newStore_atRest.live
  | apply op _ hop ih => exact ih.apply params hop

end Store

end Amberchain.Permission
