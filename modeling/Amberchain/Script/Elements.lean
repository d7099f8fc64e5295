import Amberchain.Params
import Amberchain.Script.Details

/-!
# Script elements

`mc_Script::SetScript` cuts an output script into the data before each
`OP_DROP` and the data behind `OP_RETURN`.  The `Get…` functions read the
element that is current and recognise it by its size, its identifier and a
one-byte marker.
-/

namespace Amberchain

def OP_PUSHDATA1 : Byte := 0x4c
def OP_PUSHDATA2 : Byte := 0x4d
def OP_PUSHDATA4 : Byte := 0x4e
def OP_1 : Byte := 0x51
def OP_16 : Byte := 0x60
def OP_RETURN : Byte := 0x6a
def OP_DROP : Byte := 0x75

/-- "spk" -/
def MC_DCT_SCRIPT_MULTICHAIN_IDENTIFIER : Bytes := [0x73, 0x70, 0x6b]

/-- "SPK" -/
def MC_DCT_SCRIPT_FREE_DATA_IDENTIFIER : Bytes := [0x53, 0x50, 0x4b]

def MC_DCT_SCRIPT_MULTICHAIN_ENTITY_PREFIX : Byte := 0x65
def MC_DCT_SCRIPT_MULTICHAIN_CASHED_SCRIPT_PREFIX : Byte := 0x69
def MC_DCT_SCRIPT_MULTICHAIN_KEY_PREFIX : Byte := 0x6b
def MC_DCT_SCRIPT_MULTICHAIN_APPROVE_PREFIX : Byte := 0x61
def MC_DCT_SCRIPT_MULTICHAIN_NEW_ENTITY_PREFIX : Byte := 0x6e
def MC_DCT_SCRIPT_MULTICHAIN_UPDATE_ENTITY_PREFIX : Byte := 0x75
def MC_DCT_SCRIPT_MULTICHAIN_PERMISSIONS_PREFIX : Byte := 0x70
def MC_DCT_SCRIPT_MULTICHAIN_ASSET_GENESIS_PREFIX : Byte := 0x67
def MC_DCT_SCRIPT_MULTICHAIN_ASSET_QUANTITY_PREFIX : Byte := 0x71
def MC_DCT_SCRIPT_MULTICHAIN_ASSET_DETAILS_PREFIX : Byte := 0x61
def MC_DCT_SCRIPT_MULTICHAIN_ASSET_FOLLOWON_PREFIX : Byte := 0x6f
def MC_DCT_SCRIPT_MULTICHAIN_GENERAL_DETAILS_PREFIX : Byte := 0x63

/-- The identifier and the marker. -/
def MC_DCT_SCRIPT_HEADER_SIZE : ℕ := 4

def MC_ENT_MAX_SCRIPT_SIZE : ℕ := 4096
def MC_ENT_MAX_NAME_SIZE : ℕ := 32
def MC_ENT_MAX_ITEM_KEY_SIZE : ℕ := 256
def MC_AST_SHORT_TXID_SIZE : ℕ := 16

/-- The size of the data an opcode pushes, and what follows the size.  A
four-byte size with its sign bit set counts as past the end. -/
def pushSize (opcode : Byte) (rest : Bytes) : Option (ℕ × Bytes) :=
  let sized (bytes : ℕ) : Option (ℕ × Bytes) :=
    if rest.length < bytes then none else some (getLE rest bytes, rest.drop bytes)
  if opcode < OP_PUSHDATA1 then some (opcode.toNat, rest)
  else if opcode = OP_PUSHDATA1 then sized 1
  else if opcode = OP_PUSHDATA2 then sized 2
  else if opcode = OP_PUSHDATA4 then sized 4
  else some (0, rest)

structure ScriptOp where
  opcode : Byte
  data : Bytes
  rest : Bytes

def getOp : Bytes → Option ScriptOp
  | [] => none
  | opcode :: rest =>
    match pushSize opcode rest with
    | none => none
    | some (size, rest) =>
      if rest.length < size then none
      else some ⟨opcode, rest.take size, rest.drop size⟩

/-- Where the iterator stands after `GetOp`, which moves it even when it fails. -/
def skipOp : Bytes → Bytes
  | [] => []
  | opcode :: rest =>
    match pushSize opcode rest with
    | none => rest
    | some (size, rest) => if rest.length < size then rest else rest.drop size

structure McScript where
  elements : List Bytes
  current : Option ℕ
  isOpReturn : Bool
  isOpDrop : Bool
  isDirty : Bool
deriving DecidableEq

namespace McScript

/-- `Clear` -/
def cleared : McScript where
  elements := []
  current := none
  isOpReturn := false
  isOpDrop := false
  isDirty := false

/-- `AddElement` and `SetData` -/
def addElement (script : McScript) (data : Bytes) : McScript :=
  { script with
    elements := script.elements ++ [data]
    current := some script.elements.length }

/-- `SetElement`; past the last element the current one stays. -/
def setElement (script : McScript) (element : ℕ) : McScript :=
  if script.elements.length ≤ element then script
  else { script with current := some element }

def numElements (script : McScript) : ℕ :=
  script.elements.length

/-- `SetScript` between two operations: the elements so far, the data of the last
push, if the last operation was one, and whether `OP_RETURN` was just read. -/
structure Scan where
  script : McScript
  lastPush : Option Bytes
  afterReturn : Bool

variable (params : ChainParams)

/-- An operation before `OP_RETURN`. -/
def Scan.beforeReturn (scan : Scan) (opcode : Byte) : Scan :=
  let script := scan.script
  if opcode = OP_RETURN then
    { scan with
      script :=
        { script with
          isOpReturn := true
          isDirty := script.isDirty || scan.lastPush.isSome }
      afterReturn := true }
  else if opcode = OP_DROP then
    match scan.lastPush with
    | some data => { scan with script := { script with isOpDrop := true }.addElement data }
    | none => { scan with script := { script with isOpDrop := true, isDirty := true } }
  else
    { scan with script := { script with isDirty := script.isDirty || scan.lastPush.isSome } }

def nextPush (opcode : Byte) (data : Bytes) : Option Bytes :=
  if data ≠ [] then some data
  else if params.fixedIn10007 then
    if OP_16 < opcode then none else some data
  else none

/-- One round of the loop of `SetScript` on an output script. -/
def Scan.step (scan : Scan) (op : ScriptOp) : Scan :=
  let scan :=
    if scan.afterReturn then
      { scan with script := scan.script.addElement op.data, afterReturn := false }
    else scan.beforeReturn op.opcode
  if scan.afterReturn then { scan with lastPush := some op.data }
  else
    let lastPush := nextPush params op.opcode op.data
    let dirty := lastPush.isNone ∧ op.opcode ≠ OP_RETURN ∧ op.opcode ≠ OP_DROP
    { script := { scan.script with isDirty := scan.script.isDirty || dirty }
      lastPush := lastPush
      afterReturn := false }

def Scan.finish (scan : Scan) : McScript :=
  let script :=
    if scan.afterReturn then scan.script.addElement [] else scan.script
  { script with isDirty := script.isDirty && script.isOpReturn }

/-- The loop of `SetScript`.  Everything behind the element after `OP_RETURN` is
ignored, and a push past the end stops the scan where it is. -/
def scanFrom : ℕ → Bytes → Scan → McScript
  | 0, _, scan => scan.finish
  | fuel + 1, script, scan =>
    if script = [] then scan.finish
    else
      match getOp script with
      | none => scan.script
      | some op =>
        if scan.afterReturn then (scan.step params op).finish
        else scanFrom fuel op.rest (scan.step params op)

/-- `SetScript` on an output script. -/
def setScript (script : Bytes) : McScript :=
  scanFrom params script.length script ⟨cleared, none, false⟩

variable (script : McScript)

/-- The data behind the identifier and the marker of the current element, when
its size, identifier and marker are right. -/
def payload (identifier : Bytes) (marker : Byte) (size : ℕ → Bool) : Except McError Bytes :=
  match script.current with
  | none => .error .invalidParameterValue
  | some element =>
    let data := script.elements.getD element []
    if ¬ size data.length ∨ data.take 3 ≠ identifier ∨ data[3]? ≠ some marker then
      .error .wrongScript
    else .ok (data.drop MC_DCT_SCRIPT_HEADER_SIZE)

structure PermissionElement where
  type : BitVec 32
  blockFrom : ℕ
  blockTo : ℕ
  timestamp : ℕ
deriving DecidableEq

def getPermission : Except McError PermissionElement := do
  let data ← script.payload MC_DCT_SCRIPT_MULTICHAIN_IDENTIFIER
    MC_DCT_SCRIPT_MULTICHAIN_PERMISSIONS_PREFIX
    (fun size => size = MC_DCT_SCRIPT_HEADER_SIZE + 16)
  return ⟨BitVec.ofNat 32 (getLE data 4), getLE (data.drop 4) 4, getLE (data.drop 8) 4,
    getLE (data.drop 12) 4⟩

def getAssetGenesis : Except McError (BitVec 64) := do
  let data ← script.payload MC_DCT_SCRIPT_MULTICHAIN_IDENTIFIER
    MC_DCT_SCRIPT_MULTICHAIN_ASSET_GENESIS_PREFIX
    (fun size => size = MC_DCT_SCRIPT_HEADER_SIZE + 8)
  let quantity := BitVec.ofNat 64 (getLE data 8)
  if quantity.msb then .error .notAllowed else .ok quantity

def getGeneralDetails : Except McError Bytes :=
  script.payload MC_DCT_SCRIPT_FREE_DATA_IDENTIFIER
    MC_DCT_SCRIPT_MULTICHAIN_GENERAL_DETAILS_PREFIX
    fun size => MC_DCT_SCRIPT_HEADER_SIZE ≤ size
      ∧ size ≤ MC_DCT_SCRIPT_HEADER_SIZE + MC_ENT_MAX_SCRIPT_SIZE

structure AssetDetails where
  name : Bytes
  multiple : BitVec 32
  details : Bytes

def assetDetailsData : Except McError Bytes :=
  script.payload MC_DCT_SCRIPT_FREE_DATA_IDENTIFIER MC_DCT_SCRIPT_MULTICHAIN_ASSET_DETAILS_PREFIX
    fun size => MC_DCT_SCRIPT_HEADER_SIZE + 5 ≤ size
      ∧ size ≤ MC_DCT_SCRIPT_HEADER_SIZE + MC_ENT_MAX_SCRIPT_SIZE + 4 + MC_ENT_MAX_NAME_SIZE + 1

def getAssetDetails : Except McError AssetDetails :=
  match script.getGeneralDetails with
  | .ok details => .ok ⟨[], 1, details⟩
  | .error .invalidParameterValue => .error .invalidParameterValue
  | .error _ => do
    let data ← script.assetDetailsData
    let name := (data.drop 4).takeWhile fun byte => byte ≠ 0
    if MC_ENT_MAX_NAME_SIZE < name.length ∨ data.length ≤ 4 + name.length then
      .error .wrongScript
    else
      .ok ⟨name, BitVec.ofNat 32 (getLE data 4), data.drop (4 + name.length + 1)⟩

/-- `GetApproval`: the approval and its timestamp. -/
def getApproval : Except McError (ℕ × ℕ) := do
  let data ← script.payload MC_DCT_SCRIPT_MULTICHAIN_IDENTIFIER
    MC_DCT_SCRIPT_MULTICHAIN_APPROVE_PREFIX
    (fun size => size = MC_DCT_SCRIPT_HEADER_SIZE + 5)
  return (getLE data 1, getLE (data.drop 1) 4)

structure NewEntity where
  type : ℕ
  update : Bool
  details : Bytes

/-- What `GetNewEntityType` reads, before it verifies the details script. -/
def readNewEntity : Except McError NewEntity := do
  let read (marker : Byte) : Except McError Bytes :=
    script.payload MC_DCT_SCRIPT_MULTICHAIN_IDENTIFIER marker
      fun size => MC_DCT_SCRIPT_HEADER_SIZE + 1 ≤ size
        ∧ size ≤ MC_DCT_SCRIPT_HEADER_SIZE + 1 + MC_ENT_MAX_SCRIPT_SIZE
  let found : Bool × Bytes ←
    match read MC_DCT_SCRIPT_MULTICHAIN_NEW_ENTITY_PREFIX with
    | .ok data => .ok (false, data)
    | .error _ => (read MC_DCT_SCRIPT_MULTICHAIN_UPDATE_ENTITY_PREFIX).map fun data => (true, data)
  return ⟨getLE found.2 1, found.1, found.2.drop 1⟩

/-- `GetNewEntityType` with the details script behind the type. -/
def getNewEntity : Except McError NewEntity := do
  let entity ← script.readNewEntity
  if Details.verify entity.details then .ok entity else .error .errorInScript

/-- `GetNewEntityType` with the type alone. -/
def getNewEntityType : Except McError ℕ := do
  let data ← script.payload MC_DCT_SCRIPT_MULTICHAIN_IDENTIFIER
    MC_DCT_SCRIPT_MULTICHAIN_NEW_ENTITY_PREFIX
    (fun size => if params.opDropDetailsScripts then MC_DCT_SCRIPT_HEADER_SIZE + 1 ≤ size
      else size = MC_DCT_SCRIPT_HEADER_SIZE + 1)
  return getLE data 1

def getItemKey : Except McError Bytes :=
  script.payload MC_DCT_SCRIPT_MULTICHAIN_IDENTIFIER MC_DCT_SCRIPT_MULTICHAIN_KEY_PREFIX
    fun size => MC_DCT_SCRIPT_HEADER_SIZE ≤ size
      ∧ size ≤ MC_DCT_SCRIPT_HEADER_SIZE + MC_ENT_MAX_ITEM_KEY_SIZE

/-- `GetEntity`: the short txid of an entity. -/
def getEntity : Except McError (BitVec 128) := do
  let data ← script.payload MC_DCT_SCRIPT_MULTICHAIN_IDENTIFIER
    MC_DCT_SCRIPT_MULTICHAIN_ENTITY_PREFIX
    (fun size => size = MC_DCT_SCRIPT_HEADER_SIZE + MC_AST_SHORT_TXID_SIZE)
  return BitVec.ofNat 128 (getLE data MC_AST_SHORT_TXID_SIZE)

/-- An entry of a cached-script element: the script of the output that an input
spends. -/
structure CachedScript where
  vin : ℕ
  script : Bytes
deriving DecidableEq

/-- `GetCachedScript`: the entry at an offset, none at offset `0`, and the next
offset.  The end of the element is `MC_ERR_WRONG_SCRIPT` too. -/
def getCachedScript (offset : ℕ) : Except McError (Option CachedScript × ℕ) := do
  let data ← script.payload MC_DCT_SCRIPT_MULTICHAIN_IDENTIFIER
    MC_DCT_SCRIPT_MULTICHAIN_CASHED_SCRIPT_PREFIX
    (fun size => MC_DCT_SCRIPT_HEADER_SIZE ≤ size)
  let start := offset - MC_DCT_SCRIPT_HEADER_SIZE
  if offset = 0 then .ok (none, MC_DCT_SCRIPT_HEADER_SIZE)
  else if data.length = start then .error .wrongScript
  else if data.length < start + 4 then .error .errorInScript
  else
    let vin := toInt32 (getLE (data.drop start) 4)
    if vin < 0 then .error .errorInScript
    else
      match getVarInt (data.drop (start + 4)) with
      | none => .error .errorInScript
      | some (value, shift) =>
        let size := toInt32 value
        if size < 0 ∨ data.length < start + 4 + shift + size.toNat then
          .error .errorInScript
        else
          .ok (some ⟨vin.toNat, (data.drop (start + 4 + shift)).take size.toNat⟩,
            offset + 4 + shift + size.toNat)

end McScript

end Amberchain
