import Amberchain.Base.LittleEndian

/-!
# Binary JSON

`ubjson_write` turns a JSON value into bytes, and `ubjson_read` reads it back.  An
array or an object is written in one of two layouts: each member with its own type
and a closing bracket, or, when the members share a type, `$`, the type, `#`, the
number of members, and the members without their types.
-/

namespace Amberchain.Ubjson

/-- The `UBJ_` types. -/
inductive UbjType where
  | undefined
  | nullType
  | noop
  | boolTrue
  | boolFalse
  | char
  | string
  | highPrecision
  | int8
  | uint8
  | int16
  | int32
  | int64
  | float32
  | float64
  | array
  | object
  | strongType
  | count
deriving DecidableEq

/-- `UBJ_TYPE`: the byte that stands for a type. -/
def UBJ_TYPE : UbjType → Byte
  | .undefined => 0x3f
  | .nullType => 0x5a
  | .noop => 0x4e
  | .boolTrue => 0x54
  | .boolFalse => 0x46
  | .char => 0x43
  | .string => 0x53
  | .highPrecision => 0x48
  | .int8 => 0x69
  | .uint8 => 0x55
  | .int16 => 0x49
  | .int32 => 0x6c
  | .int64 => 0x4c
  | .float32 => 0x64
  | .float64 => 0x44
  | .array => 0x5b
  | .object => 0x7b
  | .strongType => 0x24
  | .count => 0x23

/-- `UBJ_SIZE`: the bytes that a value takes behind its type, negative where that
depends on the value. -/
def UBJ_SIZE : UbjType → ℤ
  | .undefined | .nullType | .noop | .boolTrue | .boolFalse => 0
  | .char | .int8 | .uint8 => 1
  | .int16 => 2
  | .int32 | .float32 => 4
  | .int64 | .float64 => 8
  | .string | .highPrecision => -1
  | .array => -2
  | .object => -3
  | .strongType => -4
  | .count => -5

def UBJ_ISINT : UbjType → Bool
  | .int8 | .uint8 | .int16 | .int32 | .int64 => true
  | _ => false

def UbjType.number (type : UbjType) : ℕ :=
  type.ctorIdx

/-- The types that have an entry in `UBJ_INTERNAL_TYPE`: all but the undefined one. -/
def internalTypes : List UbjType :=
  [.nullType, .noop, .boolTrue, .boolFalse, .char, .string, .highPrecision, .int8, .uint8,
    .int16, .int32, .int64, .float32, .float64, .array, .object, .strongType, .count]

/-- `UBJ_INTERNAL_TYPE`: the type that a byte stands for. -/
def UBJ_INTERNAL_TYPE (byte : Byte) : Option UbjType :=
  internalTypes.find? fun type => UBJ_TYPE type == byte

/-- "]" -/
def arrayEnd : Byte := 0x5d

/-- "}" -/
def objectEnd : Byte := 0x7d

/-- A `json_spirit` value.  An unsigned integer is held as the `int64_t` of the same
bits; the flag `is_uint64_`, which neither `operator==` nor the code below reads, is
left out.  A real number is the pattern of its bits. -/
inductive Value where
  | null
  | bool (value : Bool)
  | int (value : BitVec 64)
  | real (bits : BitVec 64)
  | str (bytes : Bytes)
  | arr (values : List Value)
  | obj (members : List (Bytes × Value))

/-- `max_depth`.  A negative one passes the first test of both functions and fails the
one of arrays and objects, as 1 does. -/
def depthOf (maxDepth : ℤ) : ℕ :=
  if maxDepth < 0 then 1 else maxDepth.toNat

/-- The bytes of a number, the most significant one first. -/
def putBE (value size : ℕ) : Bytes :=
  (putLE value size).reverse

/-- The number that bytes stand for, the most significant one first. -/
def getBE (bytes : Bytes) : ℕ :=
  getLE bytes.reverse bytes.length

def bestNegativeIntType (value : ℤ) : UbjType :=
  if value + 0x80 < 0 then
    if 0 ≤ value + 0x8000 then .int16
    else if 0 ≤ value + 0x80000000 then .int32
    else .int64
  else .int8

def bestIntType (value : ℤ) : UbjType :=
  if value < 0 then bestNegativeIntType value
  else if value < 0x80 then .int8
  else if value < 0x100 then .uint8
  else if value < 0x8000 then .int16
  else if value < 0x80000000 then .int32
  else .int64

/-- When `ubjson_best_int_type` sets `not_uint8`. -/
def isNotUint8 (value : ℤ) : Bool :=
  value < 0 || 0x100 ≤ value

/-- The type of a value on its own, as `ubjson_best_type` finds it. -/
def valueType : Value → UbjType
  | .null => .nullType
  | .bool false => .boolFalse
  | .bool true => .boolTrue
  | .int value => bestIntType value.toInt
  | .real _ => .float64
  | .str [byte] => if byte.msb then .string else .char
  | .str _ => .string
  | .arr _ => .array
  | .obj _ => .object

/-- What `ubjson_best_type` makes of the type of a value and the type of those before
it. -/
def mergeType (last type : UbjType) : Option UbjType :=
  if last = .undefined ∨ type = last then some type
  else if UBJ_ISINT last ∧ UBJ_ISINT type then
    if type.number < last.number then some last else some type
  else none

/-- What `ubjson_best_type` keeps of the members that it was called on. -/
structure Survey where
  last : UbjType
  notUint8 : Bool
  usize : ℤ
  ssize : ℤ

/-- The sizes and the flag after one more member. -/
def Survey.count (survey : Survey) (value : Value) : Survey :=
  let type := valueType value
  let size := UBJ_SIZE type
  { survey with
    notUint8 :=
      match value with
      | .int value => survey.notUint8 || isNotUint8 value.toInt
      | _ => survey.notUint8
    usize := if 0 ≤ size then survey.usize + size else survey.usize
    ssize :=
      if 0 ≤ size then
        if type = .uint8 then survey.ssize + size + 1 else survey.ssize + size
      else survey.ssize }

/-- The loop over the members, which ends at one that the types before it exclude. -/
def survey : List Value → Survey → Option Survey
  | [], found => some found
  | value :: values, found =>
    match mergeType found.last (valueType value) with
    | none => none
    | some type => survey values { found.count value with last := type }

/-- Unsigned bytes beside numbers that are none become 16-bit integers. -/
def Survey.shared (found : Survey) : UbjType :=
  if found.last = .uint8 ∧ found.notUint8 then .int16 else found.last

/-- The layout in which every member has its own type is not longer. -/
def Survey.plainFits (found : Survey) (count : ℕ) : Prop :=
  let ssize := if found.last = .uint8 ∧ ¬ found.notUint8 then found.usize else found.ssize
  let sizeType := bestIntType (toInt32 count)
  ssize + count + 1 ≤ count * UBJ_SIZE found.shared + UBJ_SIZE sizeType + 4

instance (found : Survey) (count : ℕ) : Decidable (found.plainFits count) :=
  inferInstanceAs (Decidable (_ ≤ _))

def strongType (values : List Value) : UbjType :=
  match survey values ⟨.undefined, false, 0, 0⟩ with
  | none => .undefined
  | some found =>
    if found.last = .undefined ∨ found.plainFits values.length then .undefined else found.shared

/-- The ways in which `ubjson_write` does not succeed: an error, a loop whose counter,
an `unsigned int`, never reaches the number of members, more bytes than `m_Size` of
`mc_Script`, an `int`, can count, and the exception of a `get_` function. -/
inductive WriteStop where
  | error (err : McError)
  | endless
  | overflow
  | wrongType
deriving DecidableEq

abbrev Writer := EStateM WriteStop Bytes

def setData (data : Bytes) : Writer PUnit := do
  let script ← get
  if script.length + data.length < 2 ^ 31 then set (script ++ data)
  else throw .overflow

def getInt64 : Value → Writer (BitVec 64)
  | .int value => pure value
  | _ => throw .wrongType

def getReal : Value → Writer (BitVec 64)
  | .real bits => pure bits
  | _ => throw .wrongType

def getStr : Value → Writer Bytes
  | .str bytes => pure bytes
  | _ => throw .wrongType

def getArray : Value → Writer (List Value)
  | .arr values => pure values
  | _ => throw .wrongType

def getObj : Value → Writer (List (Bytes × Value))
  | .obj members => pure members
  | _ => throw .wrongType

def int64Write (value : BitVec 64) (known : UbjType) : Writer PUnit :=
  if known = .undefined then
    let type := bestIntType value.toInt
    setData (UBJ_TYPE type :: putBE value.toNat (UBJ_SIZE type).toNat)
  else setData (putBE value.toNat (UBJ_SIZE known).toNat)

def writeType (value : Value) (known : UbjType) : Writer UbjType :=
  if known = .undefined then do
    setData [UBJ_TYPE (valueType value)]
    pure (valueType value)
  else pure known

/-- The loop over the members compares an `unsigned int` with their number. -/
def writeCountable (count : ℕ) : Writer PUnit :=
  if count < 2 ^ 32 then pure ⟨⟩ else throw .endless

/-- What stands before the members of an array or an object. -/
def writeHeader (strong : UbjType) (count : ℕ) : Writer PUnit :=
  if strong = .undefined then pure ⟨⟩
  else do
    setData [UBJ_TYPE .strongType]
    setData [UBJ_TYPE strong]
    setData [UBJ_TYPE .count]
    int64Write (BitVec.ofNat 64 count) .undefined

/-- What stands behind the members. -/
def writeEnd (strong : UbjType) (closing : Byte) : Writer PUnit :=
  if strong = .undefined then setData [closing] else pure ⟨⟩

/-- One member, with `write` for `ubjson_write_internal` one level deeper. -/
def writeMember (write : UbjType → Value → Writer PUnit) (strong : UbjType) (value : Value) :
    Writer PUnit :=
  if UBJ_ISINT strong then do int64Write (← getInt64 value) strong else write strong value

def writeMembers (strong : UbjType) (count : ℕ) (closing : Byte) (members : Writer PUnit) :
    Writer PUnit := do
  writeCountable count
  writeHeader strong count
  members
  writeEnd strong closing

def writeArray (write : UbjType → Value → Writer PUnit) (values : List Value) : Writer PUnit :=
  let strong := strongType values
  writeMembers strong values.length arrayEnd (values.forM (writeMember write strong))

def writeObject (write : UbjType → Value → Writer PUnit) (members : List (Bytes × Value)) :
    Writer PUnit :=
  let strong := strongType (members.map Prod.snd)
  writeMembers strong members.length objectEnd <|
    members.forM fun member => do
      write .string (.str member.1)
      writeMember write strong member.2

/-- What `ubjson_write_internal` writes behind the type, with `write` for the function
itself one level deeper, where `depth` is left. -/
def writeValue (write : UbjType → Value → Writer PUnit) (depth : ℕ) (value : Value)
    (type : UbjType) : Writer PUnit :=
  if UBJ_ISINT type then do int64Write (← getInt64 value) type
  else
    match type with
    | .nullType | .boolFalse | .boolTrue => pure ⟨⟩
    | .float64 => do setData (putBE (← getReal value).toNat 8)
    | .char => do setData ((← getStr value) ++ [0] |>.take 1)
    | .string => do
      let bytes ← getStr value
      int64Write (BitVec.ofNat 64 bytes.length) .undefined
      setData bytes
    | .array =>
      if depth = 0 then throw (.error .notSupported)
      else do writeArray write (← getArray value)
    | .object =>
      if depth = 0 then throw (.error .notSupported)
      else do writeObject write (← getObj value)
    | _ => throw (.error .notSupported)

def writeInternal : ℕ → UbjType → Value → Writer PUnit
  | 0, _, _ => throw (.error .notSupported)
  | depth + 1, known, value => do
    let type ← writeType value known
    writeValue (writeInternal depth) depth value type

def ubjsonWrite (value : Value) (maxDepth : ℤ) : Writer PUnit :=
  writeInternal (depthOf maxDepth) .undefined value

/-- The ways in which `ubjson_read` does not return a value: an error, a byte or a
cursor outside the input, a cursor that would go back, the exception of `std::string`
for a size that is too large, the exception of `get_str`, and a loop that is not over
after the rounds it is given. -/
inductive ReadStop where
  | error (err : McError)
  | outOfInput
  | backwards
  | lengthError
  | wrongType
  | outOfRounds
deriving DecidableEq

/-- What is left from `ptr` to `ptrEnd`, and the lengths and numbers of members that
were used, the last one first. -/
structure ReadState where
  rest : Bytes
  lengths : List ℤ

/-- A computation on the bytes that are left. -/
abbrev Reader := EStateM ReadStop ReadState

/-- `ptr + size > ptrEnd` is an error. -/
def need (size : ℤ) : Reader PUnit := do
  let state ← get
  if state.rest.length < size then throw (.error .errorInScript) else pure ⟨⟩

/-- `*ptr` -/
def peek : Reader Byte := do
  let state ← get
  match state.rest with
  | [] => throw .outOfInput
  | byte :: _ => pure byte

/-- `ptr += size` -/
def advance (size : ℤ) : Reader PUnit := do
  let state ← get
  if size < 0 then throw .backwards
  else if state.rest.length < size then throw .outOfInput
  else set { state with rest := state.rest.drop size.toNat }

/-- The bytes from `ptr` on, as many as the size says. -/
def copy (size : ℤ) : Reader Bytes := do
  let state ← get
  if size < 0 then throw .lengthError
  else if state.rest.length < size then throw .outOfInput
  else pure (state.rest.take size.toNat)

def readType : Reader UbjType := do
  need 1
  match UBJ_INTERNAL_TYPE (← peek) with
  | none => throw (.error .errorInScript)
  | some type => do
    advance 1
    pure type

def typeOrRead (known : UbjType) : Reader UbjType :=
  if known = .undefined then readType else pure known

/-- The number that `ubjson_int64_read` makes of its bytes: they overwrite the low
bytes of -1 or of 0. -/
def decodeInt (type : UbjType) (bytes : Bytes) : BitVec 64 :=
  let negative := type ≠ .uint8 ∧ bytes.head?.any BitVec.msb
  BitVec.ofInt 64 ((if negative then -(256 ^ bytes.length : ℤ) else 0) + getBE bytes)

def readFixed (size : ℤ) : Reader Bytes := do
  need size
  let bytes ← copy size
  advance size
  pure bytes

def int64Read (known : UbjType) : Reader (BitVec 64) := do
  let type ← typeOrRead known
  if UBJ_ISINT type then do
    let bytes ← readFixed (UBJ_SIZE type)
    pure (decodeInt type bytes)
  else throw (.error .errorInScript)

/-- `(int)ubjson_int64_read(ptr,ptrEnd,UBJ_UNDEFINED,&sh,err)` -/
def readLength : Reader ℤ := do
  let value ← int64Read .undefined
  let size := toInt32 value.toNat
  modify fun state => { state with lengths := size :: state.lengths }
  pure size

/-- A `float` as a `double`. -/
def widenFloat (bits : BitVec 32) : BitVec 64 :=
  let sign := (bits >>> 31).toNat
  let exponent := (bits >>> 23).toNat % 256
  let fraction := bits.toNat % 2 ^ 23
  let double (exponent fraction : ℕ) : BitVec 64 :=
    BitVec.ofNat 64 (sign * 2 ^ 63 + exponent * 2 ^ 52 + fraction)
  if exponent = 255 then
    double 2047 (if fraction = 0 then 0 else fraction * 2 ^ 29 ||| 2 ^ 51)
  else if exponent = 0 then
    if fraction = 0 then double 0 0
    else double (fraction.log2 + 874) ((fraction - 2 ^ fraction.log2) * 2 ^ (52 - fraction.log2))
  else double (exponent + 896) (fraction * 2 ^ 29)

def copyString (size : ℤ) : Reader Bytes :=
  if size = 0 then pure [] else copy size

def readSized (size : ℤ) : Reader Bytes := do
  need size
  let bytes ← copyString size
  advance size
  pure bytes

def readString : Reader Bytes := do
  let size ← readLength
  readSized size

/-- The number of members behind `#`, and -1 without it. -/
def readCount : Reader ℤ := do
  if (← peek) = UBJ_TYPE .count then do
    advance 1
    readLength
  else pure (-1)

/-- What stands before the members of an array or an object: the type that they share,
and their number. -/
def readHeader : Reader (UbjType × ℤ) := do
  need 1
  if (← peek) = UBJ_TYPE .strongType then do
    advance 1
    let strong ← readType
    need 1
    if (← peek) ≠ UBJ_TYPE .count then throw (.error .errorInScript)
    else do
      let count ← readCount
      pure (strong, count)
  else do
    let count ← readCount
    pure (.undefined, count)

/-- As many members as their number says. -/
def readCounted {α : Type} (member : Reader α) : ℕ → Reader (List α)
  | 0 => pure []
  | count + 1 => do
    let value ← member
    let values ← readCounted member count
    pure (value :: values)

def readUncounted {α : Type} (member : Reader α) (closing : Byte) : ℕ → Reader (List α)
  | 0 => throw .outOfRounds
  | rounds + 1 => do
    need 1
    if (← peek) = closing then do
      advance 1
      pure []
    else do
      let value ← member
      let values ← readUncounted member closing rounds
      pure (value :: values)

def readBehind {α : Type} (member : UbjType → Reader α) (closing : Byte) (rounds : ℕ)
    (header : UbjType × ℤ) : Reader (List α) :=
  if 0 ≤ header.2 then readCounted (member header.1) header.2.toNat
  else readUncounted (member header.1) closing rounds

def readMembers {α : Type} (member : UbjType → Reader α) (closing : Byte) (rounds : ℕ) :
    Reader (List α) := do
  let header ← readHeader
  readBehind member closing rounds header

/-- `get_str` on the name of a member. -/
def nameOf : Value → Reader Bytes
  | .str bytes => pure bytes
  | _ => throw .wrongType

/-- One member of an object, with `read` for `ubjson_read_internal` one level deeper. -/
def readPair (read : UbjType → Reader Value) (strong : UbjType) : Reader (Bytes × Value) := do
  let name ← read .string
  let bytes ← nameOf name
  let value ← read strong
  pure (bytes, value)

/-- What `ubjson_read_internal` reads behind the type, with `read` for the function itself
one level deeper, where `depth` is left.  Nothing stands behind the types that are not
types of values. -/
def readValue (read : UbjType → Reader Value) (rounds depth : ℕ) (type : UbjType) : Reader Value :=
  if UBJ_ISINT type then do
    let value ← int64Read type
    pure (.int value)
  else
    match type with
    | .boolFalse => pure (.bool false)
    | .boolTrue => pure (.bool true)
    | .float32 => do
      let bytes ← readFixed (UBJ_SIZE .float32)
      pure (.real (widenFloat (BitVec.ofNat 32 (getBE bytes))))
    | .float64 => do
      let bytes ← readFixed (UBJ_SIZE .float64)
      pure (.real (BitVec.ofNat 64 (getBE bytes)))
    | .char => do
      let bytes ← readFixed (UBJ_SIZE .char)
      pure (.str bytes)
    | .string | .highPrecision => do
      let bytes ← readString
      pure (.str bytes)
    | .array =>
      if depth = 0 then throw (.error .notSupported)
      else do
        let values ← readMembers read arrayEnd rounds
        pure (.arr values)
    | .object =>
      if depth = 0 then throw (.error .notSupported)
      else do
        let members ← readMembers (readPair read) objectEnd rounds
        pure (.obj members)
    | _ => pure .null

/-- `ubjson_read_internal`, with at most `rounds` rounds for each loop that waits for a
closing bracket. -/
def readInternal (rounds : ℕ) : ℕ → UbjType → Reader Value
  | 0, _ => throw (.error .notSupported)
  | depth + 1, known => do
    let type ← typeOrRead known
    readValue (readInternal rounds depth) rounds depth type

def ubjsonRead (rounds : ℕ) (elem : Bytes) (maxDepth : ℤ) : EStateM.Result ReadStop ReadState Value :=
  readInternal rounds (depthOf maxDepth) .undefined ⟨elem, []⟩

end Amberchain.Ubjson
