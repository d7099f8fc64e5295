import Amberchain.Permission.Runs

/-!
# Rolling back blocks

However many blocks are added to a store, a rollback to its height brings back
its log, and with it every lookup and both counts.
-/

namespace Amberchain.Permission

open RowChain

structure Block where
  calls : List Call
  miner : Hash160
  hash : Hash256

namespace Store

variable (params : ChainParams)

def callAll (store : Store) (calls : List Call) : Store :=
  calls.foldl (call params) store

def addBlock (store : Store) (block : Block) : Store :=
  (store.callAll params block.calls).commit params block.miner block.hash

def addBlocks (store : Store) (blocks : List Block) : Store :=
  blocks.foldl (addBlock params) store

/-- Two rows show the same permission.  Once a block-miner row was read back from
the ledger, its flags hold the miner count of its block. -/
structure SameRow (key : PermKey) (row other : LedgerRow) : Prop where
  blockFrom : other.blockFrom = row.blockFrom
  blockTo : other.blockTo = row.blockTo
  thisRow : other.thisRow = row.thisRow
  flags : key.type ≠ MC_PTP_BLOCK_MINER → other.flags = row.flags

structure SameState (store other : Store) : Prop where
  block : other.block = store.block
  row : other.row = store.row
  adminCount : other.adminCount = store.adminCount
  minerCount : other.minerCount = store.minerCount
  permission : ∀ key checkMempool, key.type ≠ MC_PTP_BLOCK_INDEX →
    (other.getPermission key checkMempool).1 = (store.getPermission key checkMempool).1
  rows : ∀ key checkMempool, key.type ≠ MC_PTP_BLOCK_INDEX →
    SameRow key (store.getPermission key checkMempool).2
      (other.getPermission key checkMempool).2

variable {params} {store other : Store}

theorem RowAt.sameRow {row : ℕ → LedgerRow} {key : PermKey} {base : ℕ}
    {found found' : LedgerRow} (hfound : RowAt row key base found)
    (hfound' : RowAt row key base found') : SameRow key found found' := by
  refine ⟨?_, ?_, ?_, fun htype => ?_⟩
  · rw [hfound.blockFrom, hfound'.blockFrom]
  · rw [hfound.blockTo, hfound'.blockTo]
  · rw [hfound.thisRow, hfound'.thisRow]
  rw [hfound.flags htype, hfound'.flags htype]

theorem AtRest.rowAt (hrest : AtRest store) {key : PermKey}
    (htype : key.type ≠ MC_PTP_BLOCK_INDEX) (checkMempool : Bool) :
    RowAt store.ledger.getRow key store.row (store.permissionRow key checkMempool) := by
  have hshows := hrest.live.showsBelow htype
  rw [memPoolStart_of_empty hrest.memPool] at hshows
  have hcommitted := permissionRow_committed hshows
  cases checkMempool with
  | false => exact hcommitted
  | true =>
    have hrow : store.permissionRow key true = store.permissionRow key false := by
      unfold permissionRow
      rw [hrest.memPool]
      rfl
    rw [hrow]
    exact hcommitted

/-- Stores at rest over the same rows are the same to every reader. -/
theorem AtRest.sameState (hrest : AtRest store) (hother : AtRest other)
    (hblock : other.block = store.block) (hrow : other.row = store.row)
    (hrows : ∀ i, 0 < i → i < store.row → other.ledger.getRow i = store.ledger.getRow i) :
    SameState store other := by
  have hnext : other.nextBlock = store.nextBlock := by
    rw [nextBlock, nextBlock, hblock]
  have hcount : ∀ type, countAt other.ledger.getRow type other.row other.nextBlock =
      countAt store.ledger.getRow type store.row store.nextBlock := by
    intro type
    rw [hrow, hnext]
    exact countAt_congr type _ (fun i hi hlt => by rw [hrows i hi hlt])
      (fun i hi hlt => by rw [hrows i hi hlt]) fun i hi hlt => by rw [hrows i hi hlt]
  have hfound : ∀ key checkMempool, key.type ≠ MC_PTP_BLOCK_INDEX →
      RowAt store.ledger.getRow key store.row (other.permissionRow key checkMempool) := by
    intro key checkMempool htype
    have hread := hother.rowAt htype checkMempool
    rw [hrow] at hread
    exact hread.congr hrows
  constructor
  · exact hblock
  · exact hrow
  · rw [hother.admins, hrest.admins]
    exact hcount MC_PTP_ADMIN
  · rw [hother.miners, hrest.miners]
    exact hcount MC_PTP_MINE
  · intro key checkMempool htype
    have hrange := (hfound key checkMempool htype).inRange_eq
      (hrest.rowAt htype checkMempool) store.nextBlock
    unfold getPermission
    dsimp only
    rw [hnext, hrange]
  intro key checkMempool htype
  exact RowAt.sameRow (hrest.rowAt htype checkMempool) (hfound key checkMempool htype)

/-- `store` has grown from `start` by whole blocks. -/
structure GrownFrom (start store : Store) : Prop where
  atRest : AtRest store
  block_le : start.block ≤ store.block
  row_le : start.row ≤ store.row
  old : ∀ i, i < start.row → store.ledger.getRow i = start.ledger.getRow i
  new : ∀ i, start.row ≤ i → i < store.row →
    start.block < ((store.ledger.getRow i).blockReceived : ℤ)

theorem GrownFrom.refl (hrest : AtRest store) : GrownFrom store store :=
  ⟨hrest, le_rfl, le_rfl, fun _ _ => rfl, fun _ hge hlt => absurd hlt (not_lt.mpr hge)⟩

theorem Live.callAll (params : ChainParams) (hlive : Live store) (calls : List Call) :
    Live (store.callAll params calls) ∧ (store.callAll params calls).ledger = store.ledger ∧
      (store.callAll params calls).block = store.block ∧
      (store.callAll params calls).memPoolStart = store.memPoolStart := by
  have hstep : ∀ (current : Store) (call : Call), Live current →
      Live (current.call params call) ∧
        (current.call params call).ledger = current.ledger ∧
        (current.call params call).block = current.block ∧
        (current.call params call).memPoolStart = current.memPoolStart := by
    intro current call hcurrent
    refine call_induct params call (motive := fun next => Live next ∧
      next.ledger = current.ledger ∧ next.block = current.block ∧
      next.memPoolStart = current.memPoolStart) ?_ ⟨hcurrent, rfl, rfl, rfl⟩
    rintro before row next ⟨hbefore, hledger, hblock, hstart⟩ happ
    exact ⟨hbefore.append happ, happ.ledger_eq.trans hledger, happ.block_eq.trans hblock,
      (hbefore.append_memPoolStart happ).trans hstart⟩
  induction calls generalizing store with
  | nil => exact ⟨hlive, rfl, rfl, rfl⟩
  | cons call calls ih =>
    obtain ⟨hnext, hledger, hblock, hstart⟩ := hstep store call hlive
    obtain ⟨hlast, hledger', hblock', hstart'⟩ := ih hnext
    exact ⟨hlast, hledger'.trans hledger, hblock'.trans hblock, hstart'.trans hstart⟩

theorem Reachable.addBlock (hreach : Reachable params store)
    (hheight : store.block + 1 < 2 ^ 31) (block : Block) :
    Reachable params (store.addBlock params block) := by
  have hcalls : Reachable params (store.callAll params block.calls) := by
    clear hheight
    induction block.calls generalizing store with
    | nil => exact hreach
    | cons call calls ih => exact ih (hreach.apply (.call call) trivial)
  obtain ⟨_, _, hblock, _⟩ := hreach.live.callAll params block.calls
  refine hcalls.apply (.commit block.miner block.hash) ?_
  show (store.callAll params block.calls).block + 1 < 2 ^ 31
  rw [hblock]
  exact hheight

/-- One more block leaves the older rows and brings rows of a higher block. -/
theorem GrownFrom.addBlock (params : ChainParams) {start : Store} (hgrown : GrownFrom start store)
    (hheight : store.block + 1 < 2 ^ 31) (block : Block) :
    GrownFrom start (store.addBlock params block) ∧
      (store.addBlock params block).block = store.block + 1 := by
  have hrest := hgrown.atRest
  obtain ⟨hlive, hledger, hblock, hstart⟩ := hrest.live.callAll params block.calls
  unfold Store.addBlock
  generalize store.callAll params block.calls = filled at hlive hledger hblock hstart ⊢
  rw [memPoolStart_of_empty hrest.memPool] at hstart
  have hend := hlive.pool.start_add_length
  have hle := hgrown.row_le
  have hheightLe := hgrown.block_le
  obtain ⟨hnewBlock, hnewRow⟩ := hlive.commit_block params block.miner block.hash
  have hbelow : ∀ i, i < store.row →
      (filled.commit params block.miner block.hash).ledger.getRow i =
        store.ledger.getRow i := by
    intro i hlt
    have hlog : filled.logRow i = filled.ledger.getRow i := logRow_of_lt (by omega)
    rw [hlive.commit_getRow params block.miner block.hash (.inl (by omega)),
      if_pos (by omega), hlog, hledger]
  refine ⟨⟨hlive.commit_atRest params block.miner block.hash (by rw [hblock]; exact hheight),
    ?_, ?_, ?_, ?_⟩, by rw [hnewBlock, hblock]⟩
  · omega
  · omega
  · intro i hlt
    rw [hbelow i (by omega)]
    exact hgrown.old i hlt
  intro i hi hlt
  by_cases hold : i < store.row
  · rw [hbelow i hold]
    exact hgrown.new i hi hold
  rw [hlive.commit_received params block.miner block.hash (by omega) (by omega),
    nextBlock]
  omega

theorem GrownFrom.addBlocks {start : Store} (hgrown : GrownFrom start store)
    (blocks : List Block) (hheights : store.block + blocks.length < 2 ^ 31) :
    GrownFrom start (store.addBlocks params blocks) := by
  induction blocks generalizing store with
  | nil => exact hgrown
  | cons block blocks ih =>
    rw [List.length_cons] at hheights
    obtain ⟨hnext, hblock⟩ := hgrown.addBlock params (by omega) block
    exact ih hnext (by rw [hblock]; omega)

theorem GrownFrom.rollBack {start : Store} (hstart : AtRest start)
    (hgrown : GrownFrom start store) : SameState start (store.rollBack start.block) := by
  have hlive := hgrown.atRest.live
  have hbase := memPoolStart_of_empty hgrown.atRest.memPool
  obtain ⟨cut, hrolled⟩ := hlive.rollBack_spec hstart.files.block_ge hgrown.block_le
  have hcut : Cut store.ledger.getRow store.memPoolStart start.block start.row := by
    rw [hbase]
    refine ⟨hstart.files.log.pos, hgrown.row_le, fun i hi hlt => ?_, hgrown.new⟩
    rw [hgrown.old i hlt]
    exact hstart.files.log.received_le i hi hlt
  have hrow : (store.rollBack start.block).row = start.row :=
    hrolled.row.trans (hrolled.isCut.unique hcut)
  refine hstart.sameState hrolled.atRest hrolled.block hrow fun i _ hlt => ?_
  rw [hrolled.getRow]
  exact hgrown.old i hlt

/-- `RollBack` undoes `Commit`: after any further blocks, going back to the
height of a reachable store restores its heights, its counts, and all its lookups
but the flags of block-miner rows.  Heights fit the signed 32 bits of
`m_Block`. -/
theorem rollBack_addBlocks (hreach : Reachable params store) (hempty : store.memPool = [])
    (blocks : List Block) (hheights : store.block + blocks.length < 2 ^ 31) :
    SameState store ((store.addBlocks params blocks).rollBack store.block) := by
  have hrest := hreach.live.atRest hempty
  have hgrown : GrownFrom store (store.addBlocks params blocks) :=
    (GrownFrom.refl hrest).addBlocks blocks hheights
  exact hgrown.rollBack hrest

def firstMiner : Hash160 := 0x4d

def firstMinerGrant : Grant where
  entity := nullEntity
  address := firstMiner
  type := MC_PTP_MINE ||| MC_PTP_ADMIN
  admin := firstMiner
  blockFrom := 0
  blockTo := maxBlock
  timestamp := 1
  flags := 0
  updateMempool := true
  offset := 0

def secondMinerGrant : Grant :=
  { firstMinerGrant with address := 0x4e, type := MC_PTP_MINE, offset := 81 }

def minedOnce : Store :=
  newStore.addBlock .defaults ⟨[.grant firstMinerGrant], firstMiner, 1⟩

theorem minedOnce_reachable : Reachable .defaults minedOnce := by
  have hstart : Reachable .defaults newStore := .start
  exact hstart.addBlock (by decide) ⟨[.grant firstMinerGrant], firstMiner, 1⟩

theorem minedOnce_rollBack : SameState minedOnce
    ((minedOnce.addBlocks .defaults [⟨[], firstMiner, 2⟩]).rollBack minedOnce.block) :=
  rollBack_addBlocks minedOnce_reachable (by decide +kernel) [⟨[], firstMiner, 2⟩]
    (by decide +kernel)

/-- The flags of a block-miner row do not come back: the database row was written
before the miner count was stamped into the ledger row, and the rollback reads it
from there. -/
theorem rollBack_shows_miner_count :
    ¬ ∀ (params : ChainParams) (store : Store), Reachable params store →
      store.memPool = [] → ∀ blocks : List Block, store.block + blocks.length < 2 ^ 31 →
      ∀ key : PermKey, key.type ≠ MC_PTP_BLOCK_INDEX →
        (((store.addBlocks params blocks).rollBack store.block).getPermission key true).2.flags =
          (store.getPermission key true).2.flags := by
  intro hflags
  have hsame := hflags .defaults minedOnce minedOnce_reachable (by decide +kernel)
    [⟨[], firstMiner, 2⟩] (by decide +kernel) (blockMinerKey firstMiner) (by decide)
  revert hsame
  decide +kernel

end Store

end Amberchain.Permission
