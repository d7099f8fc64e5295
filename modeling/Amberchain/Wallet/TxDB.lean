import Amberchain.Base.Batched
import Amberchain.Base.LittleEndian

/-!
# Rows of the wallet transaction database

Entities, the rows of their lists, the statistics of an import, and the definitions of
transactions.  The counters that the code keeps in 32 bits are integers here.
-/

namespace Amberchain.Wallet

/-- `mc_TxEntity` -/
structure TxEntity where
  entityId : Hash160
  entityType : BitVec 32
deriving DecidableEq

namespace TxEntity

/-- The entity type with `MC_TET_ORDERMASK` is `MC_TET_TIMERECEIVED`. -/
def timeReceived (entity : TxEntity) : Bool :=
  entity.entityType &&& 0x0000FF00 = 0x00000200

/-- `MC_TET_SUBKEY` is in the entity type. -/
def subKey (entity : TxEntity) : Bool :=
  entity.entityType &&& 0x00000040 ≠ 0

end TxEntity

structure RowKey where
  entity : TxEntity
  generation : ℤ
  pos : ℤ
deriving DecidableEq

structure RowValue where
  txId : Hash256
  block : ℤ
  flags : ℕ
  lastSubKeyPos : ℤ
  tempPos : ℤ
deriving DecidableEq

/-- `mc_TxEntityRow` -/
structure TxEntityRow extends RowKey, RowValue
deriving DecidableEq

/-- `mc_TxEntityRow::Zero` for an entity and a generation. -/
def TxEntityRow.zero (entity : TxEntity) (generation : ℤ) : TxEntityRow where
  entity := entity
  generation := generation
  pos := 0
  txId := 0
  block := 0
  flags := 0
  lastSubKeyPos := 0
  tempPos := 0

/-- `Seek` in a buffer of rows, by entity, generation, position and transaction. -/
def seek (pool : List TxEntityRow) (row : TxEntityRow) : Option ℕ :=
  pool.findIdx? fun other => other.toRowKey = row.toRowKey ∧ other.txId = row.txId

/-- `mc_TxEntityStat` -/
structure TxEntityStat where
  entity : TxEntity
  flags : BitVec 32
  generation : ℤ
  lastPos : ℤ
  lastClearedPos : ℤ
deriving DecidableEq

/-- `MC_EFL_NOT_IN_SYNC` is in the flags. -/
def TxEntityStat.notInSync (stat : TxEntityStat) : Bool :=
  stat.flags &&& 0x01000000 ≠ 0

def TxEntityStat.grow (stat : TxEntityStat) : TxEntityStat :=
  { stat with lastPos := stat.lastPos + 1 }

/-- `mc_TxImport` -/
structure TxImport where
  importId : ℤ
  block : ℤ
  entities : List TxEntityStat
deriving DecidableEq

namespace TxImport

variable (imp : TxImport)

def findEntity (entity : TxEntity) : Option ℕ :=
  imp.entities.findIdx? fun stat => stat.entity = entity

def getEntity (row : Option ℕ) : Option TxEntityStat :=
  row.bind fun index => imp.entities[index]?

def modifyEntity (row : ℕ) (change : TxEntityStat → TxEntityStat) : TxImport :=
  { imp with entities := imp.entities.modify row change }

end TxImport

/-- `mc_TxDefRow`, without the place in the data files. -/
structure TxDefRow where
  txId : Hash256
  size : ℕ
  fullSize : ℕ
  block : ℤ
  blockFileId : ℤ
  blockOffset : ℕ
  blockTxOffset : ℕ
  blockIndex : ℕ
  timeReceived : ℕ
  flags : BitVec 32
deriving DecidableEq

/-- `MC_TFL_INVALID` -/
def flagInvalid : BitVec 32 :=
  0x00000001

/-- `MC_TFL_INVALID` is in the flags. -/
def TxDefRow.invalid (txDef : TxDefRow) : Bool :=
  txDef.flags &&& flagInvalid ≠ 0

/-- The arguments of `AddTx` about the transaction and its place in a block. -/
structure TxArgs where
  hash : Hash256
  txSize : ℕ
  txFullSize : ℕ
  block : ℤ
  blockFile : ℤ
  blockOffset : ℕ
  blockTxOffset : ℕ
  blockTxIndex : ℕ
  flags : BitVec 32
  timestamp : ℕ

/-- The block and its coordinates; an unconfirmed transaction has the file `-1` only when
`erase` says that old coordinates go. -/
def TxDefRow.place (txDef : TxDefRow) (tx : TxArgs) (erase : Bool) : TxDefRow :=
  if 0 ≤ tx.block then
    { txDef with
      block := tx.block
      blockFileId := tx.blockFile
      blockOffset := tx.blockOffset
      blockTxOffset := tx.blockTxOffset
      blockIndex := tx.blockTxIndex
      flags := tx.flags }
  else
    { txDef with
      block := tx.block
      blockFileId := if erase then -1 else txDef.blockFileId
      flags := tx.flags }

end Amberchain.Wallet

/-!
# The transaction list store

`mc_TxDB`: the imports, for each of them the list rows and the definitions that wait for
its next commit, the updates of definitions that are on disk, and the disk itself.  Import
`0` is the chain import.  Data files, statistics and the rows that persist the imports are
left out.
-/

namespace Amberchain.Wallet

structure TxDB where
  /-- `m_Block` of `m_DBStat` -/
  block : ℤ
  imports : ℕ → TxImport
  memPools : ℕ → List TxEntityRow
  rawMemPools : ℕ → Hash256 → Option TxDefRow
  rawUpdatePool : Hash256 → Option TxDefRow
  rows : Batched RowKey RowValue
  defs : Batched Hash256 TxDefRow

/-- The store with which an error leaves a function stays as it is. -/
abbrev TxDB.Outcome := Except (McError × TxDB) TxDB

namespace TxDB

/-- `Initialize` on an empty directory. -/
def initial : TxDB where
  block := -1
  imports := fun slot => ⟨0, if slot = 0 then -1 else 0, []⟩
  memPools := fun _ => []
  rawMemPools := fun _ _ => none
  rawUpdatePool := fun _ => none
  rows := Batched.empty
  defs := Batched.empty

variable (db : TxDB)

def setImport (slot : ℕ) (imp : TxImport) : TxDB :=
  { db with imports := Function.update db.imports slot imp }

def setMemPool (slot : ℕ) (pool : List TxEntityRow) : TxDB :=
  { db with memPools := Function.update db.memPools slot pool }

def setRaw (slot : ℕ) (hash : Hash256) (txDef : TxDefRow) : TxDB :=
  { db with
    rawMemPools := Function.update db.rawMemPools slot
      (Function.update (db.rawMemPools slot) hash (some txDef)) }

def addRow (slot : ℕ) (row : TxEntityRow) : TxDB :=
  db.setMemPool slot (db.memPools slot ++ [row])

def modifyRow (slot : ℕ) (index : ℕ) (change : TxEntityRow → TxEntityRow) : TxDB :=
  db.setMemPool slot ((db.memPools slot).modify index change)

def modifyEntity (slot : ℕ) (row : ℕ) (change : TxEntityStat → TxEntityStat) : TxDB :=
  db.setImport slot ((db.imports slot).modifyEntity row change)

/-- A block above the height of the store is reported as `-1`. -/
def report (txDef : TxDefRow) : TxDefRow :=
  if db.block < txDef.block then { txDef with block := -1 } else txDef

/-- `GetTx`; none is `MC_ERR_NOT_FOUND`. -/
def getTx (hash : Hash256) : Option TxDefRow :=
  ((db.rawMemPools 0 hash).or ((db.rawUpdatePool hash).or (db.defs.read hash))).map db.report

/-- The definition of a transaction that is neither on disk nor in the mempool. -/
def newDef (tx : TxArgs) : TxDefRow :=
  TxDefRow.place ⟨tx.hash, tx.txSize, tx.txFullSize, 0, 0, 0, 0, 0, tx.timestamp, 0⟩ tx true

/-- `AddTx` before the entities: a new definition, or the one in the mempool changed. -/
def addRaw (slot : ℕ) (tx : TxArgs) : TxDB :=
  match db.getTx tx.hash with
  | none => db.setRaw slot tx.hash (newDef tx)
  | some _ =>
    match db.rawMemPools slot tx.hash with
    | some txDef => db.setRaw slot tx.hash (txDef.place tx true)
    | none => db

/-- Rows are always added for a new transaction, for an import's entity that is not in
synchronisation, and for lists by chain position. -/
def addsAlways (imp : TxImport) (stat : TxEntityStat) (entity : TxEntity) (newTx : Bool) : Bool :=
  newTx || (0 < imp.importId && stat.notInSync) || !entity.timeReceived

/-- One round of the loop of `AddTx` over the entities. -/
def addTxEntity (slot : ℕ) (tx : TxArgs) (newTx : Bool) (db : TxDB) (entity : TxEntity) : TxDB :=
  match (db.imports slot).findEntity entity with
  | none => db
  | some index =>
    match (db.imports slot).getEntity index with
    | none => db
    | some stat =>
      let erow := { TxEntityRow.zero stat.entity stat.generation with txId := tx.hash }
      match seek (db.memPools slot) erow with
      | some mprow =>
        db.modifyRow slot mprow fun row => { row with block := tx.block, flags := tx.flags.toNat }
      | none =>
        if addsAlways (db.imports slot) stat erow.entity newTx then
          (db.modifyEntity slot index TxEntityStat.grow).addRow slot { erow with
            block := tx.block
            flags := tx.flags.toNat
            tempPos := stat.lastPos + 1 }
        else db

/-- `AddTx` after the entities: the definition of a transaction on disk goes to the pool of
updates, with the block that `GetTx` reported replaced. -/
def addUpdate (found : Option TxDefRow) (onDisk : Bool) (tx : TxArgs) : TxDB :=
  match found with
  | some txDef =>
    if onDisk then
      { db with
        rawUpdatePool :=
          Function.update db.rawUpdatePool tx.hash (some (txDef.place tx false)) }
    else db
  | none => db

def addTx (slot : ℕ) (tx : TxArgs) (entities : List TxEntity) : TxDB :=
  let imp := db.imports slot
  if imp.importId ≠ 0 ∧ entities.all fun entity => (imp.findEntity entity).isNone then db
  else
    let found := db.getTx tx.hash
    let onDisk := (db.rawMemPools slot tx.hash).isNone
    let added := entities.foldl (addTxEntity slot tx found.isNone) (db.addRaw slot tx)
    if imp.importId = 0 then added.addUpdate found onDisk tx else added

def changeFlag (flag : BitVec 32) (setFlag : Bool) (txDef : TxDefRow) : TxDefRow :=
  { txDef with flags := if setFlag then txDef.flags ||| flag else txDef.flags &&& ~~~flag }

def saveTxFlag (hash : Hash256) (flag : BitVec 32) (setFlag : Bool) : Outcome :=
  match db.rawMemPools 0 hash with
  | some txDef => .ok (db.setRaw 0 hash (changeFlag flag setFlag txDef))
  | none =>
    let updated := { db with
      rawUpdatePool := Function.update db.rawUpdatePool hash
        ((db.rawUpdatePool hash).map (changeFlag flag setFlag)) }
    match db.defs.read hash with
    | none => .error (.notFound, updated)
    | some txDef =>
      .ok { updated with
        rows := updated.rows.commit
        defs := (updated.defs.put hash (changeFlag flag setFlag txDef)).commit }

/-- `AddEntity`: the row that persists the entity is committed with what waits in the batch. -/
def addEntity (slot : ℕ) (entity : TxEntity) (flags : BitVec 32) : Outcome :=
  let imp := db.imports slot
  match imp.findEntity entity with
  | some _ => .error (.found, db)
  | none =>
    .ok { db.setImport slot { imp with entities := imp.entities ++ [⟨entity, flags, 0, 0, 0⟩] } with
      rows := db.rows.commit
      defs := db.defs.commit }

/-- `AddSubKeyDef`: a definition for a key that is not known yet. -/
def addSubKeyDef (slot : ℕ) (hash : Hash256) (subKeySize : ℕ) (flags : BitVec 32)
    (timeReceived : ℕ) : TxDB :=
  match db.getTx hash with
  | some _ => db
  | none => db.setRaw slot hash ⟨hash, subKeySize, subKeySize, -1, -1, 0, 0, 0, timeReceived, flags⟩

/-- The first row of a list on disk, where the length of a sub-key list is kept. -/
def firstRow (entity : TxEntity) (generation : ℤ) : Option RowValue :=
  db.rows.read ⟨entity, generation, 1⟩

def storedSubKeyPos (entity : TxEntity) (generation : ℤ) : ℤ :=
  ((db.firstRow entity generation).map fun value => value.lastSubKeyPos).getD 0

def decrementSubKey (slot : ℕ) (parentEntity entity : TxEntity) : Outcome :=
  let imp := db.imports slot
  match imp.getEntity (imp.findEntity parentEntity) with
  | none => .error (.internalError, db)
  | some stat =>
    let erow := { TxEntityRow.zero entity stat.generation with pos := 1 }
    match seek (db.memPools slot) erow with
    | some mprow =>
      .ok (db.modifyRow slot mprow fun row => { row with lastSubKeyPos := row.lastSubKeyPos - 1 })
    | none =>
      let lastPos := db.storedSubKeyPos entity stat.generation
      .ok (db.addRow slot { erow with flags := lastPos.toNat, lastSubKeyPos := lastPos - 1 })

/-- The length of a sub-key list before an item is added, and the mempool with it counted:
the row after the anchor carries the length, or an anchor is added. -/
def countSubKey (slot : ℕ) (entity : TxEntity) (generation : ℤ) : ℤ × TxDB :=
  let erow := TxEntityRow.zero entity generation
  match seek (db.memPools slot) erow with
  | some mprow =>
    let lastPos := (((db.memPools slot)[mprow + 1]?).map fun row => row.lastSubKeyPos).getD 0
    (lastPos, db.modifyRow slot (mprow + 1) fun row => { row with lastSubKeyPos := lastPos + 1 })
  | none =>
    let lastPos := db.storedSubKeyPos entity generation
    (lastPos, db.addRow slot { erow with lastSubKeyPos := lastPos + 1 })

def incrementSubKey (slot : ℕ) (parentEntity entity : TxEntity) (subKeyHash : Hash160)
    (txHash : Hash256) (block : ℤ) (flags : BitVec 32) (newTx : Bool) : Outcome :=
  let imp := db.imports slot
  match imp.findEntity parentEntity, imp.getEntity (imp.findEntity parentEntity) with
  | some index, some stat =>
    if addsAlways imp stat parentEntity newTx then
      let (lastPos, counted) := db.countSubKey slot entity stat.generation
      let added := counted.addRow slot { TxEntityRow.zero entity stat.generation with
        txId := txHash
        lastSubKeyPos := lastPos + 1
        tempPos := lastPos + 1
        block := block
        flags := flags.toNat }
      if lastPos = 0 then
        .ok ((added.modifyEntity slot index TxEntityStat.grow).addRow slot
          { TxEntityRow.zero stat.entity stat.generation with
            txId := subKeyHash.setWidth 256
            block := block
            flags := flags.toNat
            tempPos := stat.lastPos + 1 })
      else .ok added
    else .ok db
  | _, _ => .error (.internalError, db)

/-- `BeforeCommit`: of the chain's mempool only rows of lists by time stay. -/
def beforeCommit (slot : ℕ) : TxDB :=
  let imp := db.imports slot
  if imp.importId ≠ 0 then db
  else
    (db.setImport slot { imp with
      entities := imp.entities.map fun stat =>
        if stat.entity.timeReceived then stat else { stat with lastPos := stat.lastClearedPos } }).setMemPool
      slot ((db.memPools slot).filter fun row => row.entity.timeReceived)

/-- The first row of a list on disk gets a new count. -/
def recount (rows : Batched RowKey RowValue) (row : TxEntityRow) :
    Option (Batched RowKey RowValue) :=
  (rows.read ⟨row.entity, row.generation, 1⟩).map fun value =>
    rows.put ⟨row.entity, row.generation, 1⟩ { value with lastSubKeyPos := row.lastSubKeyPos }

/-- One decremented sub-key row: the rows beyond the new count are deleted, and the first
row gets the new count. -/
def rollBackSubKey (db : TxDB) (row : TxEntityRow) : Outcome :=
  if row.entity.subKey ∧ row.tempPos = 0 ∧ row.pos = 1 then
    let beyond := (List.range (row.flags - row.lastSubKeyPos).toNat).map fun (offset : ℕ) =>
      row.lastSubKeyPos + offset
    let trimmed := { db with
      rows := beyond.foldl (fun rows j => rows.delete ⟨row.entity, row.generation, j + 1⟩) db.rows }
    if row.lastSubKeyPos ≠ 0 then
      match recount trimmed.rows row with
      | none => .error (.corrupted, trimmed)
      | some rows => .ok { trimmed with rows := rows }
    else .ok trimmed
  else .ok db

/-- The loop of `RollBack` that removes the last rows of a list while their block is above. -/
def trimRows (slot index : ℕ) (stat : TxEntityStat) (block : ℤ) : ℕ → TxDB → Outcome
  | 0, db => .ok db
  | pos + 1, db =>
    match db.rows.read ⟨stat.entity, stat.generation, pos + 1⟩ with
    | none => .error (.notFound, db)
    | some value =>
      if block < value.block then
        trimRows slot index stat block pos
          ({ db with
            rows := db.rows.delete ⟨stat.entity, stat.generation, pos + 1⟩ }.modifyEntity
              slot index fun stat => { stat with lastPos := pos })
      else .ok db

/-- One round of the loop of `RollBack` over the entities. -/
def rollBackEntity (slot : ℕ) (block : ℤ) (db : TxDB) (index : ℕ) : Outcome :=
  match (db.imports slot).entities[index]? with
  | none => .ok db
  | some stat =>
    if stat.entity.timeReceived then .ok db
    else do
      let trimmed ← trimRows slot index stat block stat.lastClearedPos.toNat
        (db.modifyEntity slot index fun stat => { stat with lastPos := stat.lastClearedPos })
      .ok (trimmed.modifyEntity slot index fun stat => { stat with lastClearedPos := stat.lastPos })

/-- `RollBack` once the decremented sub-key rows are removed. -/
def rollBackLists (slot : ℕ) (block : ℤ) : Outcome := do
  let kept := db.setMemPool slot ((db.memPools slot).filter fun row => row.entity.timeReceived)
  let imp := db.imports slot
  let cleared := if imp.importId = 0 then { kept with rawUpdatePool := fun _ => none } else kept
  let trimmed ← (List.range imp.entities.length).foldlM (rollBackEntity slot block) cleared
  .ok { trimmed.setImport slot { trimmed.imports slot with block := block } with
    block := if imp.importId = 0 then block else trimmed.block
    rows := trimmed.rows.commit
    defs := trimmed.defs.commit }

def rollBack (slot : ℕ) (block : ℤ) : Outcome := do
  let decremented ← (db.memPools slot).foldlM rollBackSubKey db
  decremented.rollBackLists slot block

def Outcome.store : Outcome → TxDB
  | .ok db => db
  | .error (_, db) => db

def isAnchor (row : TxEntityRow) : Bool :=
  row.entity.subKey && row.tempPos = 0

/-- The position in the mempool becomes the one on disk. -/
def placed (row : TxEntityRow) : TxEntityRow :=
  if isAnchor row then row else { row with pos := row.tempPos, tempPos := 0 }

/-- One row of the mempool goes to its place on disk; none is `MC_ERR_CORRUPTED`.  After an
anchor the count is written as well. -/
def commitRow (rows : Batched RowKey RowValue) (anchor : Bool) (row : TxEntityRow) :
    Option (Batched RowKey RowValue) :=
  if isAnchor row then some rows
  else
    (if anchor ∧ 1 < row.tempPos then recount rows row else some rows).map fun counted =>
      counted.put (placed row).toRowKey (placed row).toRowValue

/-- The loop of `Commit` over the mempool; an error leaves the rows that were done placed. -/
def commitRows : List TxEntityRow → Bool → Batched RowKey RowValue →
    Except (List TxEntityRow × Batched RowKey RowValue) (Batched RowKey RowValue)
  | [], _, rows => .ok rows
  | row :: rest, anchor, rows =>
    match commitRow rows anchor row with
    | none => .error (row :: rest, rows)
    | some written =>
      match commitRows rest (isAnchor row) written with
      | .error (left, rows) => .error (placed row :: left, rows)
      | .ok rows => .ok rows

/-- The definitions that `Commit` writes. -/
def commitDefs (slot : ℕ) : Batched Hash256 TxDefRow :=
  let added := db.defs.putAll (db.rawMemPools slot)
  if (db.imports slot).importId = 0 then added.putAll db.rawUpdatePool else added

/-- `Commit`; when the rows cannot be written it rolls back to the block before. -/
def commit (slot : ℕ) : Outcome :=
  let imp := db.imports slot
  let block := imp.block + 1
  let written := { db with defs := db.commitDefs slot }
  match commitRows (db.memPools slot) false db.rows with
  | .error (pool, rows) =>
    .error (.corrupted,
      ({ written.setMemPool slot pool with rows := rows }.rollBack slot (block - 1)).store)
  | .ok rows =>
    .ok { written with
      block := if imp.importId = 0 then block else db.block
      imports := Function.update db.imports slot ⟨imp.importId, block,
        imp.entities.map fun stat => { stat with lastClearedPos := stat.lastPos }⟩
      memPools := Function.update db.memPools slot []
      rawMemPools := Function.update db.rawMemPools slot fun _ => none
      rawUpdatePool := fun _ => none
      rows := rows.commit
      defs := written.defs.commit }

end TxDB

end Amberchain.Wallet

namespace Amberchain.Wallet.TxDB

variable (db : TxDB)

/-- `GetListSize` without a generation: the size and the confirmed size. -/
def getListSize (entity : TxEntity) : ℤ × ℤ :=
  match (db.imports 0).getEntity ((db.imports 0).findEntity entity) with
  | none => (0, 0)
  | some stat => (stat.lastPos, stat.lastClearedPos)

/-- `GetListSize` with a generation, where sub-key lists are counted from their anchor. -/
def getGenerationListSize (entity : TxEntity) (generation : ℤ) : ℤ × ℤ :=
  if entity.subKey then
    match seek (db.memPools 0) (TxEntityRow.zero entity generation) with
    | some mprow =>
      let first := ((db.memPools 0)[mprow + 1]?).getD (TxEntityRow.zero entity generation)
      (first.lastSubKeyPos, first.tempPos - 1)
    | none =>
      let lastPos := db.storedSubKeyPos entity generation
      (lastPos, lastPos)
  else db.getListSize entity

/-- The loop of `GetList` over the positions, with the part of the mempool that is still to
be searched. -/
def listRows (entity : TxEntity) (generation confirmed : ℤ) :
    List ℤ → List TxEntityRow → Except McError (List TxEntityRow)
  | [], _ => .ok []
  | i :: positions, pool =>
    if i ≤ confirmed then
      match db.rows.read ⟨entity, generation, i⟩ with
      | none => .error .notFound
      | some value =>
        (listRows entity generation confirmed positions pool).map fun rows =>
          ⟨⟨entity, generation, i⟩, value⟩ :: rows
    else
      match pool.dropWhile fun row => !(row.tempPos = i ∧ row.entity = entity) with
      | [] => .error .notFound
      | row :: pool =>
        (listRows entity generation confirmed positions pool).map fun rows =>
          { row with pos := i } :: rows

/-- The positions from `first` to `last`. -/
def positions (first last : ℤ) : List ℤ :=
  (List.range (last - first + 1).toNat).map fun (offset : ℕ) => first + offset

/-- A window that does not start at a positive position ends that much before the end. -/
def windowFirst (size start count : ℤ) : ℤ :=
  if start ≤ 0 then size - count + 1 + start else start

/-- `GetList` of a subscribed entity -/
def getList (slot : ℕ) (entity : TxEntity) (start count : ℤ) : Except McError (List TxEntityRow) :=
  match (db.imports slot).getEntity ((db.imports slot).findEntity entity) with
  | none => .ok []
  | some stat =>
    let size := (db.getListSize entity).1
    let first := windowFirst size start count
    if first + count - 1 < 1 then .ok []
    else
      let count := if first ≤ 0 then count - (1 - first) else count
      let first := if first ≤ 0 then 1 else first
      let last := if first + count - 1 ≤ size then first + count - 1 else size
      db.listRows stat.entity stat.generation stat.lastClearedPos (positions first last)
        (db.memPools slot)

/-- `GetList` of a generation; unlike the other it keeps `count` when the window starts
before the list. -/
def getGenerationList (slot : ℕ) (entity : TxEntity) (generation start count : ℤ) :
    Except McError (List TxEntityRow) :=
  let (size, confirmed) := db.getGenerationListSize entity generation
  if size ≤ 0 then .ok []
  else
    let first := windowFirst size start count
    if first + count - 1 < 1 then .ok []
    else
      let first := if first ≤ 0 then 1 else first
      let last := if first + count - 1 ≤ size then first + count - 1 else size
      db.listRows entity generation confirmed (positions first last) (db.memPools slot)

end Amberchain.Wallet.TxDB
