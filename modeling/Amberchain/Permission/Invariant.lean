import Amberchain.Permission.Commit
import Mathlib.Data.Set.Card

/-!
# The invariant of the permission store

The ledger rows below the live end form a log whose rows link along their keys
and whose blocks end in a block-miner row and a block-index row.  The database
is the index of that log, and the mempool continues it.
-/

namespace Amberchain.Permission

open RowChain

def keyAt (row : ℕ → LedgerRow) (i : ℕ) : PermKey :=
  (row i).key

def prevAt (row : ℕ → LedgerRow) (i : ℕ) : ℕ :=
  (row i).prevRow

/-- The newest row of a key before `base`. -/
abbrev newestRow (row : ℕ → LedgerRow) (key : PermKey) (base : ℕ) : ℕ :=
  lastRow (keyAt row) key base

/-- The address holds the permission at height `next` by the rows before
`base`. -/
def allowedAt (row : ℕ → LedgerRow) (type : PermType) (base next : ℕ) (address : Hash160) : Prop :=
  newestRow row ⟨nullEntity, address, type⟩ base ≠ 0 ∧
    Store.inRange (row (newestRow row ⟨nullEntity, address, type⟩ base)) next = true

/-- How many addresses other than the zero address hold the permission. -/
noncomputable def countAt (row : ℕ → LedgerRow) (type : PermType) (base next : ℕ) : BitVec 32 :=
  BitVec.ofNat 32 {address | address ≠ 0 ∧ allowedAt row type base next address}.ncard

/-- The rows below `last` are those of the blocks up to `height`, and the last
two of them record that block. -/
structure BlockEnd (row : ℕ → LedgerRow) (base height last : ℕ) : Prop where
  two_lt : 2 < last
  le_base : last ≤ base
  under : ∀ i, 0 < i → i < last → (row i).blockReceived ≤ height
  beyond : ∀ i, last ≤ i → i < base → height < (row i).blockReceived
  index : (row (last - 1)).key = blockIndexKey height
  miner : ∃ address, (row (last - 2)).key = blockMinerKey address
  admins : (row (last - 1)).adminCount = countAt row MC_PTP_ADMIN last (height + 1)
  miners : (row (last - 1)).minerCount = countAt row MC_PTP_MINE last (height + 1)

/-- The rows below `base` are a well-formed log of the blocks up to `block`. -/
structure LogInv (row : ℕ → LedgerRow) (block : ℤ) (base : ℕ) : Prop where
  pos : 0 < base
  thisRow : ∀ i, 0 < i → i < base → (row i).thisRow = i
  received_le : ∀ i, 0 < i → i < base → ((row i).blockReceived : ℤ) ≤ block
  received_mono : ∀ i j, 0 < i → i ≤ j → j < base →
    (row i).blockReceived ≤ (row j).blockReceived
  linked : ∀ key, key.type ≠ MC_PTP_BLOCK_INDEX →
    LinkedAt (keyAt row) (prevAt row) key base
  indexKey : ∀ i, 0 < i → i < base → (row i).key.type = MC_PTP_BLOCK_INDEX →
    (row i).key = blockIndexKey (row i).blockReceived
  ends : ∀ height : ℕ, (height : ℤ) ≤ block → ∃ last, BlockEnd row base height last

/-- The part of a database row that rollback restores: the flags of a
block-miner row hold a count once they come from the ledger. -/
def visible (key : PermKey) (dbRow : DBRow) : DBRow :=
  if key.type = MC_PTP_BLOCK_MINER then { dbRow with flags := 0 } else dbRow

def indexed (row : ℕ → LedgerRow) (key : PermKey) (base : ℕ) : Option DBRow :=
  indexAt (keyAt row) (fun i => visible key ((row i).toDBRow i)) key base

def Indexed (db : PermissionDB) (row : ℕ → LedgerRow) (base : ℕ) : Prop :=
  ∀ key, key.type ≠ MC_PTP_BLOCK_INDEX →
    (db.rows.lookup key).map (visible key) = indexed row key base

/-- The database is the index of the rows below `base`. -/
structure IndexInv (db : PermissionDB) (row : ℕ → LedgerRow) (block : ℤ)
    (base : ℕ) : Prop where
  rows : Indexed db row base
  blockIndex : ∀ height last : ℕ, (height : ℤ) ≤ block →
    BlockEnd row base height last →
    ∃ dbRow, db.rows.lookup (blockIndexKey height) = some dbRow ∧
      dbRow.ledgerRow = last - 1
  indexEntity : ∀ key : PermKey, key.type = MC_PTP_BLOCK_INDEX →
    key.entity ≠ nullEntity → db.rows.lookup key = none
  listMarker : db.listMarker = true
  list : ∀ i, 0 < i → i < base → isAdminMinerKey (row i).key = true →
    ((row i).key.address, (row i).key.type) ∈ db.adminMinerList

/-- The files hold the blocks up to `block` in the rows below `base`. -/
structure Committed (db : PermissionDB) (ledger : PermissionLedger)
    (block : ℤ) (base : ℕ) : Prop where
  dbHeader : db.header = some ⟨block, base⟩
  ledgerHeader : ledger.header = some ⟨block, base⟩
  size : base ≤ ledger.size
  block_ge : -1 ≤ block
  block_lt : block < 2 ^ 31
  log : LogInv ledger.getRow block base
  index : IndexInv db ledger.getRow block base

namespace Store

/-- The rows of the ledger below the mempool, continued by the mempool. -/
def logRow (store : Store) (i : ℕ) : LedgerRow :=
  if i < store.memPoolStart then store.ledger.getRow i
  else store.memPool.getD (i - store.memPoolStart) (LedgerRow.zero ⟨0, 0, 0⟩)

def isGrantType (type : PermType) : Bool :=
  type ≠ MC_PTP_BLOCK_MINER ∧ type ≠ MC_PTP_BLOCK_INDEX

structure PoolChain (store : Store) : Prop where
  le_row : store.memPool.length < store.row
  thisRow : ∀ i, store.memPoolStart ≤ i → i < store.row → (store.logRow i).thisRow = i
  linked : ∀ key, key.type ≠ MC_PTP_BLOCK_INDEX →
    LinkedAt (keyAt store.logRow) (prevAt store.logRow) key store.row

structure PoolInv (store : Store) : Prop extends PoolChain store where
  received : ∀ i, store.memPoolStart ≤ i → i < store.row →
    (store.logRow i).blockReceived = store.nextBlock

structure Live (store : Store) : Prop where
  files : Committed store.db store.ledger store.block store.memPoolStart
  pool : PoolInv store
  grantType : ∀ row ∈ store.memPool, isGrantType row.key.type = true
  notForking : store.copiedRow = 0
  clearedAdmins : store.clearedAdminCount =
    countAt store.ledger.getRow MC_PTP_ADMIN store.memPoolStart store.nextBlock
  clearedMiners : store.clearedMinerCount =
    countAt store.ledger.getRow MC_PTP_MINE store.memPoolStart store.nextBlock
  counts : store.memPool = [] →
    store.adminCount = store.clearedAdminCount ∧
    store.minerCount = store.clearedMinerCount

end Store

end Amberchain.Permission
