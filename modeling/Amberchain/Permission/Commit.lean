import Amberchain.Permission.Records

/-!
# Commit, mempool copies and rollback

The operations of `mc_Permissions` that move whole blocks, and those that set
the mempool aside.
-/

namespace Amberchain.Permission

namespace Store

variable (params : ChainParams) (store : Store)

/-- `m_Cleared…Count` follow the current counts. -/
def resetClearedCounts : Store :=
  { store with
    clearedAdminCount := store.adminCount
    clearedMinerCount := store.minerCount
    clearedMinerCountForMinerVerification := store.minerCount }

def dropMemPool : Store :=
  { store with
    row := store.memPoolStart
    memPool := []
    adminCount := store.clearedAdminCount
    minerCount := store.clearedMinerCount }

/-- `ClearMemPoolInternal` -/
def clearMemPool : Store :=
  if store.memPool ≠ [] then store.dropMemPool.updateCounts.resetClearedCounts
  else store.resetClearedCounts

def copyMemPool : Store :=
  { store with
    copiedMemPool := store.memPool
    copiedAdminCount := store.adminCount
    copiedMinerCount := store.minerCount }

def restoreCopied : Store :=
  { store with
    memPool := store.memPool ++ store.copiedMemPool
    row := store.row + store.copiedMemPool.length
    adminCount := store.copiedAdminCount
    minerCount := store.copiedMinerCount }

def restoreMemPool : Store :=
  store.clearMemPool.restoreCopied

def addBlockRows (miner : Hash160) (hash : Hash256) : Store :=
  { store with
    memPool := store.memPool ++ [store.minerRow miner hash, store.indexRow miner hash]
    row := store.row + 2 }

def countCommitted : Store :=
  ((store.setBlock (store.block + 1)).updateCounts.setBlock store.block).resetClearedCounts

/-- `CommitInternal` up to the database commit. -/
def commitFiles (miner : Hash160) (hash : Hash256) : Store :=
  let filled := store.addBlockRows miner hash
  filled.writeAll filled.commitWrites

/-- `CommitInternal` up to the block rows with their counts. -/
def commitCounts (miner : Hash160) (hash : Hash256) : Store :=
  let counted := (store.commitFiles miner hash).countCommitted
  counted.writeAll counted.countWrites

/-- `CommitInternal` where every write succeeds.  The mempool is cleared before
the block record is stored. -/
def commit (miner : Hash160) (hash : Hash256) : Store :=
  let cleared := { store.commitCounts miner hash with memPool := [] }
  let stored := cleared.storeBlockInfoInternal params miner hash false
  stored.setBlock (stored.block + 1)

def undoWrite (row : LedgerRow) : DBWrite :=
  if row.prevRow ≠ 0 then
    .row row.key ((store.ledger.getRow row.prevRow).toDBRow row.prevRow)
  else .delete row.key

/-- The loop of `RollBackInternal`, downwards from a row while its block lies
above the target. -/
def undoWrites (block : ℤ) : ℕ → List DBWrite
  | 0 => []
  | rowID + 1 =>
    let row := store.ledger.getRow (rowID + 1)
    if block < row.blockReceived then store.undoWrite row :: undoWrites block rowID
    else []

/-- The first row of the blocks above a height, searched downwards from
`rowID`. -/
def cutRow (block : ℤ) (rowID : ℕ) : ℕ :=
  RowChain.cutAbove (fun i => block < (store.ledger.getRow i).blockReceived) rowID

/-- The writes of `RollBackInternal`: the batch, then the ledger header. -/
def rollBackWrites (block : ℤ) : List DiskWrite :=
  let header : Header := ⟨block, store.cutRow block (store.row - 1)⟩
  [.dbCommit (store.undoWrites block (store.row - 1) ++ [.header header]), .ledgerHeader header]

/-- `RollBackInternal` -/
def rollBack (block : ℤ) : Store :=
  let cleared := store.clearMemPool
  let written := cleared.writeAll (cleared.rollBackWrites block)
  let counted :=
    { written with
      block := block
      row := cleared.cutRow block (cleared.row - 1) }.updateCounts
  { counted with
    clearedAdminCount := counted.adminCount
    clearedMinerCount := counted.minerCount }

/-- `RollBackBeforeMinerVerification`: only pointers and counts move. -/
def rollBackBeforeMinerVerification (block : ℕ) : Store × Option McError :=
  if store.height < block then (store, some .internalError)
  else
    let copied := store.copyMemPool
    let dropped := if copied.memPool ≠ [] then copied.dropMemPool else copied
    let pinned :=
      { dropped with
        copiedBlock := dropped.block
        copiedRow := dropped.row
        forkBlock := block
        clearedMinerCountForMinerVerification := dropped.minerCount }
    if pinned.height = block then (pinned, none)
    else
      let moved :=
        { pinned with
          row := pinned.cutRow block (pinned.row - 1)
          block := block }
      let found := moved.permissionRow (blockIndexKey block) true
      let blockRow := moved.ledger.getRow found.thisRow
      ({ moved with
          adminCount := blockRow.adminCount
          minerCount := blockRow.minerCount
          clearedMinerCountForMinerVerification := blockRow.minerCount }, none)

def restoreAfterMinerVerification : Store :=
  { store with
    memPool := store.copiedMemPool
    block := store.copiedBlock
    forkBlock := 0
    row := store.copiedRow + store.copiedMemPool.length
    copiedRow := 0
    copiedBlock := 0
    adminCount := store.copiedAdminCount
    minerCount := store.copiedMinerCount }

end Store

end Amberchain.Permission

/-!
# Opening the store

`Initialize` reads the heights of the database and of the ledger.  When the
ledger is ahead, a commit was interrupted before its database batch, and the
ledger end is searched for again from the end of the file.
-/

namespace Amberchain.Permission

namespace Store

/-- The headers as `Initialize` first reads them: missing ones are created for
an empty store. -/
def openFiles (store : Store) : Store × Header × Header :=
  let fresh : Header := ⟨-1, 1⟩
  let pdb := store.db.header.getD fresh
  let pld := store.ledger.header.getD fresh
  let store :=
    if store.db.header.isNone then store.writeDisk (.dbCommit [.header pdb])
    else store
  let store :=
    if store.ledger.header.isNone then store.writeDisk (.ledgerHeader pld)
    else store
  (store, pdb, pld)

/-- The repair step: the ledger header is moved back to the last row of the
database height, searched from the end of the file. -/
def repairLedger (store : Store) (pdb : Header) : Store × Header :=
  let header : Header :=
    ⟨pdb.block, store.cutRow pdb.block (store.ledger.size - 1)⟩
  (store.writeDisk (.ledgerHeader header), header)

def restampCounts (store : Store) : Store :=
  let stamp (store : Store) (rowID : ℕ) : Store :=
    store.writeDisk (.ledgerRow rowID
      ((store.ledger.getRow rowID).setCounts store.adminCount store.minerCount))
  stamp (stamp store (store.row - 1)) (store.row - 2)

def addressText (address : Hash160) : BitVec 144 :=
  address.setWidth 144

/-- `Initialize` over the files of a store. -/
def initializeFrom (db : PermissionDB) (ledger : PermissionLedger) : Store × Option McError :=
  let (opened, pdb, pld) := (zero db ledger).openFiles
  let ledgerSize := opened.ledger.size
  let (repaired, pld) :=
    if pdb.block < pld.block then opened.repairLedger pdb else (opened, pld)
  if pdb.block ≠ pld.block ∨ pdb.lastRow ≠ pld.lastRow ∨ ledgerSize < pld.lastRow then
    ({ repaired with row := ledgerSize }, some .corrupted)
  else
    let counted :=
      { repaired with block := pdb.block, row := pdb.lastRow }.updateCounts.resetClearedCounts
    if counted.row - 1 = 0 then (counted, none)
    else if addressText (counted.ledger.getRow (counted.row - 1)).key.address
        ≠ addressText (blockRowAddress counted.height) then
      (counted, some .dbOpenError)
    else (counted.restampCounts, none)

end Store

end Amberchain.Permission
