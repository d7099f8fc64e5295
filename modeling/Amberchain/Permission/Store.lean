import Amberchain.Permission.Types

/-!
# The permission store

The database, the ledger file and the memory fields of `mc_Permissions`, with
the writes that change the two files.  Database writes collect in a batch that
takes effect as a whole.
-/

namespace Amberchain.Permission

/-- The zero-key database row and ledger row `0`: the block height and the first
unused ledger row. -/
structure Header where
  block : ℤ
  lastRow : ℕ
deriving DecidableEq

/-- Value part of `mc_BlockMinerDBRow`. -/
structure BlockMinerRow where
  address : Hash160
  adminMinerCount : BitVec 32
deriving DecidableEq

/-- `m_Offsets` of `mc_AdminMinerGrantDBRow`. -/
abbrev GrantOffsets := Vector (BitVec 32) MC_PLS_SIZE_OFFSETS_PER_ROW

/-- The key-value database.  Its key families never collide (permission rows,
the zero key, the rows of the admin/miner list entity, and the two record kinds
under a block hash), so each is a field of its own. -/
structure PermissionDB where
  header : Option Header
  rows : Finmap fun _ : PermKey => DBRow
  listMarker : Bool
  adminMinerList : Finset (Hash160 × PermType)
  blockMiners : Finmap fun _ : Hash256 => BlockMinerRow
  grants : Finmap fun _ : Hash256 × ℕ => GrantOffsets

def PermissionDB.empty : PermissionDB where
  header := none
  rows := ∅
  listMarker := false
  adminMinerList := ∅
  blockMiners := ∅
  grants := ∅

/-- One write of a database batch. -/
inductive DBWrite where
  | header (value : Header)
  | row (key : PermKey) (value : DBRow)
  | delete (key : PermKey)
  | listMarker
  | listEntries (entries : Finset (Hash160 × PermType))
  | blockMiner (hash : Hash256) (value : BlockMinerRow)
  | grants (hash : Hash256) (recordID : ℕ) (offsets : GrantOffsets)

namespace PermissionDB

def write (db : PermissionDB) : DBWrite → PermissionDB
  | .header value => { db with header := some value }
  | .row key value => { db with rows := db.rows.insert key value }
  | .delete key => { db with rows := db.rows.erase key }
  | .listMarker => { db with listMarker := true }
  | .listEntries entries => { db with adminMinerList := entries ∪ db.adminMinerList }
  | .blockMiner hash value => { db with blockMiners := db.blockMiners.insert hash value }
  | .grants hash recordID offsets => { db with grants := db.grants.insert (hash, recordID) offsets }

/-- `Commit`: the collected batch takes effect at once. -/
def commit (db : PermissionDB) (batch : List DBWrite) : PermissionDB :=
  batch.foldl write db

@[simp]
theorem commit_nil (db : PermissionDB) : db.commit [] = db :=
  rfl

@[simp]
theorem commit_cons (db : PermissionDB) (entry : DBWrite) (batch : List DBWrite) :
    db.commit (entry :: batch) = (db.write entry).commit batch :=
  rfl

theorem commit_append (db : PermissionDB) (first second : List DBWrite) :
    db.commit (first ++ second) = (db.commit first).commit second :=
  List.foldl_append

end PermissionDB

/-- The ledger file: its header row `0`, the rows from `1` on, and the number of
rows the file holds, the header row included.  Rows at or past the header's
`lastRow` are left over from blocks that were rolled back. -/
structure PermissionLedger where
  header : Option Header
  row : ℕ → LedgerRow
  size : ℕ

namespace PermissionLedger

def empty : PermissionLedger where
  header := none
  row := fun _ => LedgerRow.zero ⟨0, 0, 0⟩
  size := 0

/-- `GetRow`: past the end of the file the row stays zeroed. -/
def getRow (ledger : PermissionLedger) (rowID : ℕ) : LedgerRow :=
  if rowID < ledger.size then ledger.row rowID else LedgerRow.zero ⟨0, 0, 0⟩

/-- `SetRow`, and `WriteRow` at the position that follows the last write. -/
def setRow (ledger : PermissionLedger) (rowID : ℕ) (row : LedgerRow) : PermissionLedger :=
  { ledger with
    row := Function.update ledger.row rowID row
    size := max ledger.size (rowID + 1) }

/-- `SetRow(0, …)`. -/
def setHeader (ledger : PermissionLedger) (header : Header) : PermissionLedger :=
  { ledger with header := some header, size := max ledger.size 1 }

end PermissionLedger

/-- The fields of `mc_Permissions`.  The fields that only wallet code reads are
left out. -/
structure Store where
  db : PermissionDB
  ledger : PermissionLedger
  memPool : List LedgerRow
  block : ℤ
  row : ℕ
  adminCount : BitVec 32
  minerCount : BitVec 32
  checkPointRow : ℕ
  checkPointAdminCount : BitVec 32
  checkPointMinerCount : BitVec 32
  checkPointMemPoolSize : ℕ
  copiedBlock : ℤ
  forkBlock : ℤ
  copiedRow : ℕ
  copiedAdminCount : BitVec 32
  copiedMinerCount : BitVec 32
  clearedAdminCount : BitVec 32
  clearedMinerCount : BitVec 32
  clearedMinerCountForMinerVerification : BitVec 32
  copiedMemPool : List LedgerRow

namespace Store

/-- `Zero()` over the given files. -/
def zero (db : PermissionDB) (ledger : PermissionLedger) : Store where
  db := db
  ledger := ledger
  memPool := []
  block := -1
  row := 0
  adminCount := 0
  minerCount := 0
  checkPointRow := 0
  checkPointAdminCount := 0
  checkPointMinerCount := 0
  checkPointMemPoolSize := 0
  copiedBlock := 0
  forkBlock := 0
  copiedRow := 0
  copiedAdminCount := 0
  copiedMinerCount := 0
  clearedAdminCount := 0
  clearedMinerCount := 0
  clearedMinerCountForMinerVerification := 0
  copiedMemPool := []

/-- The store with another value of `m_Block`. -/
def setBlock (store : Store) (block : ℤ) : Store :=
  { store with block := block }

/-- `(uint32_t)(m_Block+1)`: the height of the block being built. -/
def nextBlock (store : Store) : ℕ :=
  (store.block + 1).toNat

/-- `(uint32_t)m_Block` -/
def height (store : Store) : ℕ :=
  (BitVec.ofInt 32 store.block).toNat

/-- The first row that is still in the mempool. -/
def memPoolStart (store : Store) : ℕ :=
  store.row - store.memPool.length

end Store

end Amberchain.Permission

/-!
# Permission lookups

`GetPermission` reads the database row of a key and then follows the mempool
rows of the key.  While a fork is being verified, the rows that decide who may
mine are read from the ledger as of the fork height instead.
-/

namespace Amberchain.Permission

namespace Store

/-- `MemPool->Seek`: the first row with this key and this previous row. -/
def seekMemPool (memPool : List LedgerRow) (key : PermKey) (prevRow : ℕ) : Option LedgerRow :=
  memPool.find? fun row => row.key = key ∧ row.prevRow = prevRow

/-- The mempool loop of `GetPermission`.  Every row found is newer than the last
one, so the length of the mempool bounds the number of rounds. -/
def followMemPool (memPool : List LedgerRow) (key : PermKey) : ℕ → LedgerRow → ℕ → LedgerRow
  | 0, row, _ => row
  | fuel + 1, row, prevRow =>
    match seekMemPool memPool key prevRow with
    | none => row
    | some next => followMemPool memPool key fuel next next.thisRow

/-- The ledger loop of `GetPermission`: back to a row received by the fork
height. -/
def walkToFork (ledger : PermissionLedger) (forkBlock : ℕ) : ℕ → LedgerRow → LedgerRow
  | 0, row => row
  | fuel + 1, row =>
    if 0 < row.prevRow ∧ forkBlock < row.blockReceived then
      walkToFork ledger forkBlock fuel (ledger.getRow row.prevRow)
    else row

def isForkType (type : PermType) : Bool :=
  type = MC_PTP_ADMIN ∨ type = MC_PTP_MINE ∨ type = MC_PTP_BLOCK_MINER

/-- The row that the database part of `GetPermission` finds. -/
def committedRow (store : Store) (key : PermKey) : Option LedgerRow :=
  match store.db.rows.lookup key with
  | none => none
  | some dbRow =>
    let pldRow : LedgerRow :=
      { LedgerRow.zero key with
        blockFrom := dbRow.blockFrom
        blockTo := dbRow.blockTo
        flags := dbRow.flags
        thisRow := dbRow.ledgerRow }
    let pldRow :=
      if key.entity = upgradeEntity then store.ledger.getRow pldRow.thisRow
      else pldRow
    if 0 < store.copiedRow ∧ isForkType key.type then
      let pldRow := walkToFork store.ledger store.forkBlock.toNat
        store.ledger.size (store.ledger.getRow dbRow.ledgerRow)
      if store.forkBlock.toNat < pldRow.blockReceived then none
      else some pldRow
    else some pldRow

/-- The row `GetPermission` fills in, with the mempool part when
`checkMempool` is set. -/
def permissionRow (store : Store) (key : PermKey) (checkMempool : Bool) : LedgerRow :=
  let found := store.committedRow key
  let row :=
    match found with
    | none => LedgerRow.zero key
    | some pldRow =>
      { LedgerRow.zero key with
        blockFrom := pldRow.blockFrom
        blockTo := pldRow.blockTo
        thisRow := pldRow.thisRow
        flags := pldRow.flags
        blockReceived := pldRow.blockReceived }
  if checkMempool then
    followMemPool store.memPool key store.memPool.length row row.thisRow
  else row

/-- `from ≤ block < to` on a row's range. -/
def inRange (row : LedgerRow) (block : ℕ) : Bool :=
  row.blockFrom ≤ block ∧ block < row.blockTo

/-- `GetPermission`: the permission type when the next block lies in the range
of the row, and the row. -/
def getPermission (store : Store) (key : PermKey) (checkMempool : Bool) : PermType × LedgerRow :=
  let row := store.permissionRow key checkMempool
  (if inRange row store.nextBlock then key.type else 0, row)

/-- `GetPermission` without the row. -/
def permission (store : Store) (key : PermKey) : PermType :=
  (store.getPermission key true).1

def isSetupPeriod (params : ChainParams) (store : Store) : Bool :=
  store.block + 1 < params.setupFirstBlocks

/-- `IsBarredByDiversity`, in 32-bit arithmetic. -/
def isBarredByDiversity (params : ChainParams) (block last : ℕ) (minerCount : BitVec 32) : Bool :=
  if minerCount = 0 then false
  else if (block : ℤ) < params.setupFirstBlocks then false
  else
    let diversity := BitVec.ofInt 32 params.miningDiversity
    let diversity :=
      if 0 < diversity.toInt then
        (minerCount * diversity - 1).sdiv (BitVec.ofNat 32 MC_PRM_DECIMAL_GRANULARITY)
      else diversity
    let diversity := diversity + 1
    let diversity := if diversity.toInt < 1 then 1 else diversity
    let diversity :=
      if minerCount.toInt < diversity.toInt then minerCount else diversity
    decide ((BitVec.ofNat 32 block - BitVec.ofNat 32 last).toInt ≤ (diversity - 1).toInt)

end Store

end Amberchain.Permission
