import Amberchain.Entity.Types
import Mathlib.Data.BitVec

/-!
# The entity database

`mc_AssetDB`: a database with one row for each key of an entity, an append-only
ledger of rows of different sizes, and the mempool, where every key of an entity
has a row of its own.
-/

namespace Amberchain.Entity

/-- The zero-key database row and ledger row `0`: the height and the position of
the last row. -/
structure EntityHeader where
  block : ℤ
  lastPos : ℤ
deriving DecidableEq

/-- A write that waits in the batch. -/
inductive EntityWrite where
  | header (value : EntityHeader)
  | row (key : EntityKey) (value : EntityDBRow)
  | delete (key : EntityKey)

structure EntityDB where
  header : Option EntityHeader
  rows : EntityKey → Option EntityDBRow

namespace EntityDB

def empty : EntityDB where
  header := none
  rows := fun _ => none

def write (db : EntityDB) : EntityWrite → EntityDB
  | .header value => { db with header := some value }
  | .row key value => { db with rows := Function.update db.rows key (some value) }
  | .delete key => { db with rows := Function.update db.rows key none }

/-- The batch takes effect in order. -/
def commit (db : EntityDB) (batch : List EntityWrite) : EntityDB :=
  batch.foldl write db

@[simp]
theorem commit_nil (db : EntityDB) : db.commit [] = db :=
  rfl

theorem commit_append (db : EntityDB) (first second : List EntityWrite) :
    db.commit (first ++ second) = (db.commit first).commit second :=
  List.foldl_append

end EntityDB

/-- The ledger file: its header, and the row that starts at a position.  The file
is never cut, so rows of abandoned blocks stay until they are overwritten. -/
structure EntityLedger where
  header : Option EntityHeader
  row : ℤ → Option EntityRow

namespace EntityLedger

def empty : EntityLedger where
  header := none
  row := fun _ => none

/-- `GetRow` when it does not fail. -/
def getRow (ledger : EntityLedger) (pos : ℤ) : EntityRow :=
  (ledger.row pos).getD EntityRow.zero

/-- `SetRow`: rows that the new row overlaps are lost. -/
def setRow (ledger : EntityLedger) (pos : ℤ) (row : EntityRow) : EntityLedger :=
  { ledger with
    row := fun at' =>
      if at' = pos then some row
      else
        (ledger.row at').filter fun old =>
          ¬ (at' < pos + row.size ∧ pos < at' + old.size) }

def behind (ledger : EntityLedger) (pos : ℤ) : ℤ :=
  if pos = 0 then ledgerTotalSize else pos + (ledger.getRow pos).size

end EntityLedger

/-- The fields of `mc_AssetDB`, with the write batch of its database. -/
structure AssetDB where
  db : EntityDB
  batch : List EntityWrite
  ledger : EntityLedger
  memPool : List EntityRow
  block : ℤ
  prevPos : ℤ
  pos : ℤ

namespace AssetDB

variable (params : ChainParams) (assets : AssetDB)

def walkToTxid (memPool : List EntityRow) : ℕ → ℕ → Option EntityRow
  | steps, index =>
    match memPool[index]? with
    | none => none
    | some row =>
      if row.key.type.isTxid then some row
      else
        match steps, index with
        | steps + 1, index + 1 => walkToTxid memPool steps index
        | _, _ => none

/-- `m_MemPool->Seek` -/
def seekMemPool (key : EntityKey) : Option ℕ :=
  assets.memPool.findIdx? fun row => row.key = key

/-- `GetEntity`: the database comes first. -/
def getEntity (key : EntityKey) : Option EntityRow :=
  match assets.db.rows key with
  | some dbRow =>
    (assets.ledger.row dbRow.ledgerPos).map fun row => { row with chainPos := dbRow.chainPos }
  | none =>
    match assets.seekMemPool key with
    | some index => walkToTxid assets.memPool 3 index
    | none => none

/-- `FindEntityByTxID`: a follow-on is found too. -/
def findEntityByTxID (txid : Hash256) : Option EntityRow :=
  (assets.getEntity (txidKey txid)).or (assets.getEntity (followOnKey txid))

def findEntityByShortTxID (shortTxid : BitVec 128) : Option EntityRow :=
  assets.getEntity (shortTxidKey shortTxid)

def findEntityByRef (ref : BitVec 80) : Option EntityRow :=
  assets.getEntity (refKey ref)

/-- `FindEntityByName` on the bytes of the text. -/
def findEntityByName (name : Bytes) : Option EntityRow :=
  assets.getEntity (nameKey (Details.lowerCase name))

def findEntityByFullRef (fullRef : FullRef) : Option EntityRow :=
  if fullRef.type = MC_AST_ASSET_REF_TYPE_REF then
    assets.findEntityByRef (fullRef.ref.setWidth 80)
  else if fullRef.type = MC_AST_ASSET_REF_TYPE_SHORT_TXID then
    assets.findEntityByShortTxID (shortTxid fullRef.ref)
  else if fullRef.type = MC_AST_ASSET_REF_TYPE_TXID then assets.findEntityByTxID fullRef.ref
  else none

/-- `FindEntityByFollowOn`: the first object of the follow-on's chain. -/
def findEntityByFollowOn (txid : Hash256) : Option EntityRow :=
  (assets.getEntity (followOnKey txid)).map fun row =>
    if row.firstPos < 0 then
      assets.memPool.getD (-row.firstPos - 1).toNat EntityRow.zero
    else assets.ledger.getRow row.firstPos

/-- The mempool loop of `GetTotalQuantity`. -/
def memPoolQuantity (firstPos : ℤ) : BitVec 64 :=
  ((assets.memPool.filter fun row => row.key.type.isTxid ∧ row.firstPos = firstPos).map
    EntityRow.quantity).sum

/-- The ledger loop of `GetTotalQuantity`: back along the chain to its first
object.  A chain that does not lead there has quantity `-1`. -/
def chainQuantity (firstPos : ℤ) : ℕ → ℤ → BitVec 64 → BitVec 64
  | 0, _, _ => -1
  | fuel + 1, pos, total =>
    let row := assets.ledger.getRow pos
    if pos = firstPos then total + row.quantity
    else if row.lastPos ≤ 0 then -1
    else chainQuantity firstPos fuel row.lastPos (total + row.quantity)

def getTotalQuantity (row : EntityRow) : BitVec 64 :=
  let total := assets.memPoolQuantity row.firstPos
  if row.firstPos < 0 then total
  else assets.chainQuantity row.firstPos (row.chainPos.toNat + 1) row.chainPos total

def clearMemPool : AssetDB :=
  if assets.memPool = [] then assets
  else
    let prevPos := (assets.ledger.header.getD ⟨-1, 0⟩).lastPos
    { assets with
      memPool := []
      prevPos := prevPos
      pos := assets.ledger.behind prevPos }

/-- `Initialize` with files that agree: the header rows are created when there
are none. -/
def initialized (db : EntityDB) (ledger : EntityLedger) : AssetDB :=
  let fresh : EntityHeader := ⟨-1, 0⟩
  let header := db.header.getD fresh
  { db := { db with header := some header }
    batch := []
    ledger := { ledger with header := some (ledger.header.getD fresh) }
    memPool := []
    block := header.block
    prevPos := header.lastPos
    pos := ledger.behind header.lastPos }

end AssetDB

end Amberchain.Entity
