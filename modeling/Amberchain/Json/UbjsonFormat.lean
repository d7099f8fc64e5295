import Amberchain.Base.Failing
import Amberchain.Json.Ubjson

/-!
# The format of binary JSON

What the bytes of a value look like, without a reader or a writer: a relation between
values and bytes, under the type that is known from outside and with the depth that is
left.  A second relation holds for the inputs in which a length or a number of
members is negative as an `int`, where everything before it is well formed.
-/

namespace Amberchain.Ubjson

variable {state : ReadState}

theorem need_run {size : ℤ} (hsize : size ≤ state.rest.length) :
    need size state = .ok ⟨⟩ state := by
  have hlong : ¬ (state.rest.length : ℤ) < size := Int.not_lt.mpr hsize
  rw [need, Failing.get_bind_apply, if_neg hlong]
  rfl

theorem need_short {size : ℤ} (hsize : state.rest.length < size) :
    need size state = .error (.error .errorInScript) state := by
  rw [need, Failing.get_bind_apply, if_pos hsize]
  rfl

theorem advance_run {size : ℤ} (hsize : 0 ≤ size) (hlength : size ≤ state.rest.length) :
    advance size state = .ok ⟨⟩ { state with rest := state.rest.drop size.toNat } := by
  have hforward : ¬ size < 0 := Int.not_lt.mpr hsize
  have hlong : ¬ (state.rest.length : ℤ) < size := Int.not_lt.mpr hlength
  rw [advance, Failing.get_bind_apply, if_neg hforward, if_neg hlong]
  rfl

theorem copy_run {size : ℤ} (hsize : 0 ≤ size) (hlength : size ≤ state.rest.length) :
    copy size state = .ok (state.rest.take size.toNat) state := by
  have hforward : ¬ size < 0 := Int.not_lt.mpr hsize
  have hlong : ¬ (state.rest.length : ℤ) < size := Int.not_lt.mpr hlength
  rw [copy, Failing.get_bind_apply, if_neg hforward, if_neg hlong]
  rfl

variable {type : UbjType}

@[simp]
theorem internalType_type (htype : type ≠ .undefined) :
    UBJ_INTERNAL_TYPE (UBJ_TYPE type) = some type := by
  cases type
  case undefined => exact absurd rfl htype
  all_goals rfl

theorem internalType_eq_some {byte : Byte}
    (htype : UBJ_INTERNAL_TYPE byte = some type) : byte = UBJ_TYPE type ∧ type ≠ .undefined := by
  have hmem := List.mem_of_find?_eq_some htype
  have hbyte := List.find?_some htype
  rw [beq_iff_eq] at hbyte
  refine ⟨hbyte.symm, ?_⟩
  rintro rfl
  revert hmem
  decide

theorem isInt_defined (hint : UBJ_ISINT type) : type ≠ .undefined := by
  rintro rfl
  cases hint

theorem size_of_isInt (hint : UBJ_ISINT type) : 0 < UBJ_SIZE type := by
  cases type
  all_goals revert hint; decide

/-- The bytes of an integer: a type and as many digits as it has. -/
inductive IntField : BitVec 64 → Bytes → Prop where
  | digits {type : UbjType} {bytes : Bytes} (hint : UBJ_ISINT type)
      (hsize : (bytes.length : ℤ) = UBJ_SIZE type) :
      IntField (decodeInt type bytes) (UBJ_TYPE type :: bytes)

/-- The bytes of a length, which is an `int`. -/
def LengthField (size : ℤ) (field : Bytes) : Prop :=
  ∃ value, IntField value field ∧ toInt32 value.toNat = size

/-- What stands before the members of an array or an object that says their number. -/
inductive Header : UbjType → ℤ → Bytes → Prop where
  | typed {strong : UbjType} {size : ℤ} {field : Bytes} (hstrong : strong ≠ .undefined)
      (hlength : LengthField size field) :
      Header strong size
        (UBJ_TYPE .strongType :: UBJ_TYPE strong :: UBJ_TYPE .count :: field)
  | counted {size : ℤ} {field : Bytes} (hlength : LengthField size field) :
      Header .undefined size (UBJ_TYPE .count :: field)

def Headless (bytes : Bytes) : Prop :=
  ∀ byte ∈ bytes.head?, byte ≠ UBJ_TYPE .strongType ∧ byte ≠ UBJ_TYPE .count

/-- The bytes of an array or an object around those of its members. -/
inductive Layout (closing : Byte) (number : ℕ) : UbjType → Bytes → Bytes → Prop where
  | counted {strong : UbjType} {head body : Bytes} (hhead : Header strong number head) :
      Layout closing number strong body (head ++ body)
  | closed {body : Bytes} (hhead : Headless (body ++ [closing])) :
      Layout closing number .undefined body (body ++ [closing])

/-- What stands before the next member, when `number` members are done. -/
inductive Opening (number : ℕ) : UbjType → Bytes → Bytes → Prop where
  | counted {strong : UbjType} {size : ℤ} {head follow : Bytes} (hhead : Header strong size head)
      (hnumber : (number : ℤ) < size) : Opening number strong head follow
  | closed {follow : Bytes} (hhead : Headless follow) : Opening number .undefined [] follow

structure Member where
  name : Bytes
  nameBytes : Bytes
  value : Value
  valueBytes : Bytes

namespace Member

def pair (member : Member) : Bytes × Value :=
  (member.name, member.value)

def bytes (member : Member) : Bytes :=
  member.nameBytes ++ member.valueBytes

end Member

/-- The bytes of a value under a known type, or with its type before it when the known
type is the undefined one. -/
inductive Encodes : ℕ → UbjType → Value → Bytes → Prop where
  | tagged {depth : ℕ} {type : UbjType} {value : Value} {bytes : Bytes}
      (htype : type ≠ .undefined) (hvalue : Encodes depth type value bytes) :
      Encodes depth .undefined value (UBJ_TYPE type :: bytes)
  | null {depth : ℕ} {type : UbjType}
      (htype : type = .nullType ∨ type = .noop ∨ type = .strongType ∨ type = .count) :
      Encodes (depth + 1) type .null []
  | boolFalse {depth : ℕ} : Encodes (depth + 1) .boolFalse (.bool false) []
  | boolTrue {depth : ℕ} : Encodes (depth + 1) .boolTrue (.bool true) []
  | int {depth : ℕ} {type : UbjType} {bytes : Bytes} (hint : UBJ_ISINT type)
      (hsize : (bytes.length : ℤ) = UBJ_SIZE type) :
      Encodes (depth + 1) type (.int (decodeInt type bytes)) bytes
  | float32 {depth : ℕ} {bytes : Bytes} (hsize : bytes.length = 4) :
      Encodes (depth + 1) .float32 (.real (widenFloat (BitVec.ofNat 32 (getBE bytes)))) bytes
  | float64 {depth : ℕ} {bytes : Bytes} (hsize : bytes.length = 8) :
      Encodes (depth + 1) .float64 (.real (BitVec.ofNat 64 (getBE bytes))) bytes
  | char {depth : ℕ} {byte : Byte} : Encodes (depth + 1) .char (.str [byte]) [byte]
  | string {depth : ℕ} {type : UbjType} {field bytes : Bytes}
      (htype : type = .string ∨ type = .highPrecision) (hlength : LengthField bytes.length field) :
      Encodes (depth + 1) type (.str bytes) (field ++ bytes)
  | array {depth : ℕ} {strong : UbjType} {items : List (Value × Bytes)} {bytes : Bytes}
      (hdepth : depth ≠ 0) (hitems : ∀ item ∈ items, Encodes depth strong item.1 item.2)
      (hlayout : Layout arrayEnd items.length strong (items.map Prod.snd).flatten bytes) :
      Encodes (depth + 1) .array (.arr (items.map Prod.fst)) bytes
  | object {depth : ℕ} {strong : UbjType} {members : List Member} {bytes : Bytes}
      (hdepth : depth ≠ 0)
      (hnames : ∀ member ∈ members, Encodes depth .string (.str member.name) member.nameBytes)
      (hvalues : ∀ member ∈ members, Encodes depth strong member.value member.valueBytes)
      (hlayout : Layout objectEnd members.length strong (members.map Member.bytes).flatten bytes) :
      Encodes (depth + 1) .object (.obj (members.map Member.pair)) bytes

/-- The input comes to a negative length: it starts with a part that is well formed, and
then the length of a string or the number of members of an array or an object is
negative as an `int`. -/
inductive MeetsNegative : ℕ → UbjType → Bytes → Prop where
  | tagged {depth : ℕ} {type : UbjType} {left : Bytes} (htype : type ≠ .undefined)
      (hmeets : MeetsNegative depth type left) :
      MeetsNegative depth .undefined (UBJ_TYPE type :: left)
  | string {depth : ℕ} {type : UbjType} {size : ℤ} {field left : Bytes}
      (htype : type = .string ∨ type = .highPrecision) (hlength : LengthField size field)
      (hsize : size < 0) : MeetsNegative (depth + 1) type (field ++ left)
  | number {depth : ℕ} {type strong : UbjType} {size : ℤ} {head left : Bytes}
      (htype : type = .array ∨ type = .object) (hdepth : depth ≠ 0)
      (hhead : Header strong size head) (hsize : size < 0) :
      MeetsNegative (depth + 1) type (head ++ left)
  | item {depth : ℕ} {strong : UbjType} {items : List (Value × Bytes)} {head left : Bytes}
      (hdepth : depth ≠ 0) (hitems : ∀ item ∈ items, Encodes depth strong item.1 item.2)
      (hopening : Opening items.length strong head ((items.map Prod.snd).flatten ++ left))
      (hmeets : MeetsNegative depth strong left) :
      MeetsNegative (depth + 1) .array (head ++ ((items.map Prod.snd).flatten ++ left))
  | name {depth : ℕ} {strong : UbjType} {members : List Member} {head left : Bytes}
      (hdepth : depth ≠ 0)
      (hnames : ∀ member ∈ members, Encodes depth .string (.str member.name) member.nameBytes)
      (hvalues : ∀ member ∈ members, Encodes depth strong member.value member.valueBytes)
      (hopening : Opening members.length strong head ((members.map Member.bytes).flatten ++ left))
      (hmeets : MeetsNegative depth .string left) :
      MeetsNegative (depth + 1) .object (head ++ ((members.map Member.bytes).flatten ++ left))
  | value {depth : ℕ} {strong : UbjType} {members : List Member} {head name nameBytes left : Bytes}
      (hdepth : depth ≠ 0)
      (hnames : ∀ member ∈ members, Encodes depth .string (.str member.name) member.nameBytes)
      (hvalues : ∀ member ∈ members, Encodes depth strong member.value member.valueBytes)
      (hopening : Opening members.length strong head
        ((members.map Member.bytes).flatten ++ (nameBytes ++ left)))
      (hname : Encodes depth .string (.str name) nameBytes)
      (hmeets : MeetsNegative depth strong left) :
      MeetsNegative (depth + 1) .object
        (head ++ ((members.map Member.bytes).flatten ++ (nameBytes ++ left)))

theorem Encodes.undefined_cons {depth : ℕ} {value : Value} {bytes : Bytes}
    (hvalue : Encodes depth .undefined value bytes) :
    ∃ type tail, type ≠ .undefined ∧ bytes = UBJ_TYPE type :: tail
      ∧ Encodes depth type value tail := by
  generalize hknown : UbjType.undefined = known at hvalue
  cases hvalue with
  | tagged htype hvalue => exact ⟨_, _, htype, rfl, hvalue⟩
  | null htype => rw [← hknown] at htype; simp at htype
  | int hint hsize => rw [← hknown] at hint; cases hint
  | string htype hlength => rw [← hknown] at htype; simp at htype
  | _ => cases hknown

theorem Encodes.string_cons {depth : ℕ} {value : Value} {bytes : Bytes}
    (hvalue : Encodes depth .string value bytes) :
    ∃ name field, value = .str name ∧ LengthField name.length field ∧ bytes = field ++ name := by
  generalize hknown : UbjType.string = known at hvalue
  cases hvalue with
  | string htype hlength => exact ⟨_, _, rfl, hlength, rfl⟩
  | null htype => rw [← hknown] at htype; simp at htype
  | int hint hsize => rw [← hknown] at hint; cases hint
  | _ => cases hknown

theorem Encodes.depth_ne_zero {depth : ℕ} {known : UbjType} {value : Value} {bytes : Bytes}
    (hvalue : Encodes depth known value bytes) : depth ≠ 0 := by
  induction hvalue with
  | tagged _ _ ih => exact ih
  | _ => exact Nat.succ_ne_zero _

end Amberchain.Ubjson
