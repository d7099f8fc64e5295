import Amberchain.Base.Cursor
import Amberchain.Script.Destination

/-!
# Script scanners

The loops that walk over a script with a pointer: `mc_Script::SetScript`,
`mc_ParseOpDropOpReturnScript`, `mc_CheckSigScriptForMutableTx` and
`mc_ExtractAddressFromInputScript`.  A pointer is its distance from the start of the
script.  The size of a push is a signed integer, so a four-byte size can be negative.
-/

namespace Amberchain

namespace Script

variable (src : Bytes)

/-- `*ptr`, for a pointer into the script. -/
def byteAt (ptr : ℤ) : Byte :=
  src.getD ptr.toNat 0

/-- `mc_GetLE` at a pointer into the script. -/
def numberAt (ptr : ℤ) (size : ℕ) : ℕ :=
  getLE (src.drop ptr.toNat) size

/-- How far the data of a push is from its opcode, and the size of the data; none
past the end of the script. -/
def pushDataAt (ptr : ℤ) : Option (ℤ × ℤ) :=
  let opcode := byteAt src ptr
  let sized (bytes : ℕ) : Option (ℤ × ℤ) :=
    if (src.length : ℤ) - (ptr + 1) < bytes then none
    else some (1 + bytes, toInt32 (numberAt src (ptr + 1) bytes))
  let found :=
    if opcode < OP_PUSHDATA1 then some (1, (opcode.toNat : ℤ))
    else if opcode = OP_PUSHDATA1 then sized 1
    else if opcode = OP_PUSHDATA2 then sized 2
    else sized 4
  found.filter fun data => ptr + data.1 + data.2 ≤ src.length

/-- `mc_GetPushDataElement` at a pointer; none is `MC_ERR_WRONG_SCRIPT`. -/
def getPushDataElement (ptr : ℤ) : Option (ℤ × ℤ) :=
  if (src.length : ℤ) ≤ ptr then none
  else if byteAt src ptr ≤ OP_PUSHDATA4 then pushDataAt src ptr
  else if OP_16 < byteAt src ptr then none
  else some (1, 0)

def pushedPart (ptr : ℤ) (data : Option (ℤ × ℤ)) : List (ℤ × ℤ) :=
  (data.map fun data => (ptr + data.1, data.2)).toList

structure SigCheck where
  ptr : ℤ
  result : BitVec 32
deriving DecidableEq

def mutableBits (hashType : Byte) : BitVec 32 :=
  let type := hashType &&& 0x1f
  (if type = 0 then 1 else 0)
    ||| if type = 1 then 2 else if type = 3 then 4 else if type ≠ 2 then 7 else 0

def sigCheckRound (state : SigCheck) : Except (BitVec 32) SigCheck :=
  if (src.length : ℤ) ≤ state.ptr then .error state.result
  else
    match getPushDataElement src state.ptr with
    | none => .ok { state with result := state.result ||| 7 }
    | some (offset, size) =>
      let next := state.ptr + offset + size
      let bits :=
        if next = src.length then 0
        else if size ≠ 0 then mutableBits (byteAt src (next - 1))
        else if state.ptr ≠ 0 then 7
        else 0
      .ok ⟨next, state.result ||| bits⟩

def sigCheckStart : SigCheck where
  ptr := 0
  result := 0

/-- The variables of the loop; no hash type stands for `-1`. -/
structure AddressScan where
  ptr : ℤ
  isRedeemScript : Bool
  hashType : Option SigHash
  size : ℤ

/-- What the function returns: the address when it was set, and whether it returns
the script. -/
structure AddressResult where
  found : Bool
  address : Option (ℤ × ℤ)
  isRedeemScript : Bool
  hashType : SigHash

/-- The end of the loop. -/
def AddressScan.finish (checkLast : Bool) (state : AddressScan) : AddressResult :=
  match state.hashType with
  | none => ⟨false, none, state.isRedeemScript, .none⟩
  | some hashType =>
    ⟨!checkLast, some (state.ptr - state.size, state.size), state.isRedeemScript, hashType⟩

def addressRound (checkLast : Bool) (state : AddressScan) : Except AddressResult AddressScan :=
  if (src.length : ℤ) ≤ state.ptr then .error (state.finish checkLast)
  else
    match getPushDataElement src state.ptr with
    | none => .error ⟨false, none, state.isRedeemScript, .none⟩
    | some (offset, size) =>
      let next := state.ptr + offset + size
      let hashType := state.hashType.getD .all
      let hashType :=
        if (next ≠ src.length ∨ checkLast) ∧ size ≠ 0 then
          hashType.next [byteAt src (next - 1)]
        else hashType
      if state.ptr = 0 ∧ size ≠ 0 ∧ next = src.length then
        .error ⟨false, none, state.isRedeemScript, hashType⟩
      else
        .ok ⟨next, state.isRedeemScript || decide (state.ptr = 0 ∧ size = 0), some hashType, size⟩

def addressStart : AddressScan where
  ptr := 0
  isRedeemScript := false
  hashType := none
  size := 0

/-- The variables of both loops: the pointer, and the elements before `OP_DROP`. -/
structure DropReturnScan where
  ptr : ℤ
  drops : List (ℤ × ℤ)

/-- What the function finds; without `OP_RETURN` it returns `NULL`. -/
structure DropReturnResult where
  drops : List (ℤ × ℤ)
  opReturn : Option (ℤ × ℤ)

/-- The element behind `OP_RETURN`. -/
def returnElement (ptr : ℤ) : ℤ × ℤ :=
  match getPushDataElement src ptr with
  | none => (ptr, 0)
  | some (offset, size) => (ptr + offset, size)

/-- One round of the first loop, which looks for elements before `OP_DROP`. -/
def dropRound (state : DropReturnScan) : DropReturnScan :=
  match getPushDataElement src state.ptr with
  | none => { state with ptr := state.ptr + 1 }
  | some (offset, size) =>
    let next := state.ptr + offset + size
    if next < src.length ∧ byteAt src next = OP_DROP then
      ⟨next + 1, state.drops ++ [(state.ptr + offset, size)]⟩
    else { state with ptr := next }

/-- One round of the second loop, which looks for `OP_RETURN`. -/
def skipRound (state : DropReturnScan) : DropReturnScan :=
  match getPushDataElement src state.ptr with
  | none => { state with ptr := state.ptr + 1 }
  | some (offset, size) => { state with ptr := state.ptr + (offset + size) }

/-- One round of either loop, and what follows them.  The first loop does not come
back once it has found as many elements as it may. -/
def dropReturnRound (count : ℕ) (state : DropReturnScan) : Except DropReturnResult DropReturnScan :=
  if (src.length : ℤ) ≤ state.ptr then .error ⟨state.drops, none⟩
  else if byteAt src state.ptr = OP_RETURN then
    .error ⟨state.drops, some (returnElement src (state.ptr + 1))⟩
  else if state.drops.length < count then .ok (dropRound src state)
  else .ok (skipRound src state)

def dropReturnStart : DropReturnScan where
  ptr := 0
  drops := []

/-- `MC_SCR_TYPE_` constants -/
inductive ScriptType where
  | scriptPubKey
  | scriptSig
  | scriptSigRaw
deriving DecidableEq

/-- The variables of the loop.  An element is the part of the script that is copied
into it. -/
structure SetScriptScan where
  ptr : ℤ
  prev : ℤ
  lastSize : ℤ
  afterReturn : Bool
  elements : List (ℤ × ℤ)
  isOpReturn : Bool
  isOpDrop : Bool
  isDirty : Bool
deriving DecidableEq

structure SetScriptResult where
  err : Option McError
  elements : List (ℤ × ℤ)
  isOpReturn : Bool
  isOpDrop : Bool
  isDirty : Bool

namespace SetScriptScan

variable (scan : SetScriptScan)

/-- An operation of an output script before `OP_RETURN`. -/
def beforeReturn (opcode : Byte) : SetScriptScan :=
  if opcode = OP_RETURN then
    { scan with
      afterReturn := true
      isOpReturn := true
      isDirty := scan.isDirty || decide (0 ≤ scan.lastSize) }
  else if opcode = OP_DROP then
    if 0 ≤ scan.lastSize then
      { scan with isOpDrop := true, elements := scan.elements ++ [(scan.prev, scan.lastSize)] }
    else { scan with isOpDrop := true, isDirty := true }
  else { scan with isDirty := scan.isDirty || decide (0 ≤ scan.lastSize) }

/-- The data of a push is the script of a multisignature: a small number, and at
least as many elements before it. -/
def isRedeemScript (type : ScriptType) (data size : ℤ) : Bool :=
  let byte := byteAt src data
  type = .scriptSig ∧ 1 < size ∧ 0x50 < byte ∧ byte ≤ 0x60
    ∧ byte.toNat - 0x50 < scan.elements.length

/-- The element of an operation: its data, or the byte before the data, or nothing
behind `OP_RETURN`. -/
def addElement (data size : ℤ) : SetScriptScan :=
  let element :=
    if size ≠ 0 then (data, size)
    else if scan.afterReturn then (data, 0)
    else (data - 1, 1)
  { scan with elements := scan.elements ++ [element], afterReturn := false }

/-- The end of a round: `ptrPrev`, `lastSize` and the move of the pointer. -/
def advance (params : ChainParams) (opcode : Byte) (data size : ℤ) : SetScriptScan :=
  let lastSize :=
    if ¬ scan.afterReturn ∧ size = 0 ∧ (¬ params.fixedIn10007 ∨ OP_16 < opcode) then -1
    else size
  { scan with
    ptr := data + size
    prev := data
    lastSize := lastSize
    isDirty := scan.isDirty
      || decide (lastSize < 0 ∧ opcode ≠ OP_RETURN ∧ opcode ≠ OP_DROP) }

def next (params : ChainParams) (type : ScriptType) (opcode : Byte) (data size : ℤ) :
    SetScriptScan :=
  if type = .scriptPubKey ∧ ¬ scan.afterReturn then
    (scan.beforeReturn opcode).advance params opcode data size
  else if scan.isRedeemScript src type data size then scan.advance params opcode data 0
  else
    -- everything behind the element of `OP_RETURN` is ignored
    let data' := if scan.afterReturn then (src.length : ℤ) else data
    (scan.addElement data size).advance params opcode data' size

/-- The end of the loop. -/
def finish : SetScriptResult where
  err := none
  elements := if scan.afterReturn then scan.elements ++ [(scan.ptr, 0)] else scan.elements
  isOpReturn := scan.isOpReturn
  isOpDrop := scan.isOpDrop
  isDirty := scan.isDirty && scan.isOpReturn

end SetScriptScan

def operationAt (ptr : ℤ) : Option (ℤ × ℤ) :=
  if byteAt src ptr ≤ OP_PUSHDATA4 then pushDataAt src ptr else some (1, 0)

def setScriptRound (params : ChainParams) (type : ScriptType) (scan : SetScriptScan) :
    Except SetScriptResult SetScriptScan :=
  if (src.length : ℤ) ≤ scan.ptr then .error scan.finish
  else
    match operationAt src scan.ptr with
    | none =>
      .error ⟨some .wrongScript, scan.elements, scan.isOpReturn, scan.isOpDrop, scan.isDirty⟩
    | some (offset, size) =>
      .ok (scan.next src params type (byteAt src scan.ptr) (scan.ptr + offset) size)

def setScriptStart : SetScriptScan where
  ptr := 0
  prev := 0
  lastSize := -1
  afterReturn := false
  elements := []
  isOpReturn := false
  isOpDrop := false
  isDirty := false

end Script

end Amberchain
