import Amberchain.Params
import Amberchain.Script.Details

/-!
# Entities

Assets, streams and upgrades: the ledger rows of the entity database, the keys
under which an entity is found, and the details that are read from its row.
-/

namespace Amberchain.Entity

def MC_ENT_TYPE_NONE : ℕ := 0x00
def MC_ENT_TYPE_ASSET : ℕ := 0x01
def MC_ENT_TYPE_STREAM : ℕ := 0x02
def MC_ENT_TYPE_STREAM_MAX : ℕ := 0x0F
def MC_ENT_TYPE_UPGRADE : ℕ := 0x10
def MC_ENT_TYPE_MAX : ℕ := 0x10

def MC_ENT_KEY_SIZE : ℕ := 32
def MC_ENT_SCRIPT_ALLOC_SIZE : ℕ := 8192

/-- The size of `m_Name`. -/
def MC_ENT_NAME_BUFFER_SIZE : ℕ := 38

/-- `m_TotalSize` of the ledger: the fixed part of a row. -/
def ledgerTotalSize : ℤ := 96

/-- `MC_ENT_KEYTYPE_` constants; a follow-on has its own txid key. -/
inductive KeyType where
  | txid
  | ref
  | name
  | shortTxid
  | followOnTxid
deriving DecidableEq

/-- The key carries `MC_ENT_KEYTYPE_FOLLOW_ON`. -/
def KeyType.isFollowOn (type : KeyType) : Bool :=
  type = .followOnTxid

def KeyType.isTxid (type : KeyType) : Bool :=
  type = .txid ∨ type = .followOnTxid

structure EntityKey where
  key : BitVec 256
  type : KeyType
deriving DecidableEq

/-- Value part of `mc_EntityDBRow`. -/
structure EntityDBRow where
  block : ℤ
  ledgerPos : ℤ
  chainPos : ℤ
  entityType : ℕ
deriving DecidableEq

/-- `mc_EntityLedgerRow`.  Negative positions in `firstPos` are mempool indices,
from `-1` down. -/
structure EntityRow where
  key : EntityKey
  block : ℤ
  offset : ℤ
  quantity : BitVec 64
  entityType : ℕ
  prevPos : ℤ
  firstPos : ℤ
  lastPos : ℤ
  chainPos : ℤ
  script : Bytes
deriving DecidableEq

namespace EntityRow

def zero : EntityRow where
  key := ⟨0, .txid⟩
  block := 0
  offset := 0
  quantity := 0
  entityType := MC_ENT_TYPE_NONE
  prevPos := 0
  firstPos := 0
  lastPos := 0
  chainPos := 0
  script := []

def size (row : EntityRow) : ℤ :=
  ledgerTotalSize + (row.script.length + 95) / 96 * 96

end EntityRow

def bytesKey (bytes : Bytes) : BitVec 256 :=
  BitVec.ofNat 256 (getLE bytes MC_ENT_KEY_SIZE)

def txidKey (txid : Hash256) : EntityKey :=
  ⟨txid, .txid⟩

def followOnKey (txid : Hash256) : EntityKey :=
  ⟨txid, .followOnTxid⟩

def shortTxid (txid : Hash256) : BitVec 128 :=
  txid.extractLsb' 128 128

def shortTxidKey (shortTxid : BitVec 128) : EntityKey :=
  ⟨shortTxid.setWidth 256, .shortTxid⟩

def refKey (ref : BitVec 80) : EntityKey :=
  ⟨ref.setWidth 256, .ref⟩

def nameKey (name : Bytes) : EntityKey :=
  ⟨bytesKey name, .name⟩

def MC_AST_ASSET_REF_TYPE_REF : BitVec 32 := 0
def MC_AST_ASSET_REF_TYPE_SHORT_TXID : BitVec 32 := 1
def MC_AST_ASSET_REF_TYPE_TXID : BitVec 32 := 2

/-- The thirty-six bytes that identify an asset in quantities: thirty-two bytes
and the reference type. -/
structure FullRef where
  ref : BitVec 256
  type : BitVec 32
deriving DecidableEq

def makeFullRef (params : ChainParams) (ref : BitVec 256) : FullRef :=
  if params.shortTxIDInTx then ⟨ref <<< 128, MC_AST_ASSET_REF_TYPE_SHORT_TXID⟩
  else ⟨ref, MC_AST_ASSET_REF_TYPE_REF⟩

def assetRefSize (params : ChainParams) : ℕ :=
  if params.shortTxIDInTx then 16 else 10

variable (params : ChainParams)

/-- The name in a details script: the special parameter, or else the one called
"name".  With streams, the name of the root stream does not count. -/
def scriptName (script : Bytes) : Option Bytes :=
  let found :=
    (Details.findSpecialParam script Details.MC_ENT_SPRM_NAME).or
      (Details.findNamedParam script [0xff, 0x6e, 0x61, 0x6d, 0x65])
  found.filter fun name =>
    ¬ (params.streams ∧ name.length = 2 ∧ name.head? = some 0x2a)

namespace EntityRow

variable (row : EntityRow)

/-- `m_Ref`: block, offset and the last two bytes of the txid, when the offset is
set. -/
def ref : Option (BitVec 80) :=
  if row.offset = 0 then none
  else
    let txid := row.key.key
    some ((txid.extractLsb' 240 8 ++ txid.extractLsb' 248 8 ++ BitVec.ofInt 32 row.offset
      ++ BitVec.ofInt 32 row.block : BitVec 80))

/-- `m_Name`, in lower case and cut to its buffer. -/
def name : Option Bytes :=
  (scriptName params row.script).map fun name =>
    (Details.lowerCase name).take MC_ENT_NAME_BUFFER_SIZE

def fullRef : FullRef :=
  if params.shortTxIDInTx then makeFullRef params ((shortTxid row.key.key).setWidth 256)
  else makeFullRef params ((row.ref.getD 0).setWidth 256)

def otherKeys : List EntityKey :=
  shortTxidKey (shortTxid row.key.key) :: (row.ref.map refKey).toList
    ++ ((row.name params).map nameKey).toList

def isUnconfirmedGenesis : Bool :=
  row.offset < 0

def smallParam (code : Byte) : ℕ :=
  match Details.findSpecialParam row.script code with
  | none => 0
  | some value => if 0 < value.length ∧ value.length ≤ 4 then getLE value value.length else 0

def allowedFollowOns : ℕ :=
  row.smallParam Details.MC_ENT_SPRM_FOLLOW_ONS

def anyoneCanWrite : ℕ :=
  row.smallParam Details.MC_ENT_SPRM_ANYONE_CAN_WRITE

def upgradeStartBlock : ℕ :=
  row.smallParam Details.MC_ENT_SPRM_UPGRADE_START_BLOCK

end EntityRow

end Amberchain.Entity
