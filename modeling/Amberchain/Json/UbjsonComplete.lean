import Amberchain.Base.Consuming
import Amberchain.Json.UbjsonFormat

/-!
# What the reader reads

The reader returns the value that well-formed bytes stand for, whatever follows them,
and leaves what follows.  Where the input comes to a negative length, the reader uses it.
-/

namespace Amberchain.Ubjson

open Consuming Failing

/-- The reader returns a value and leaves the rest. -/
abbrev Gets {α : Type} (reader : Reader α) (start : Bytes) (value : α) (left : Bytes) : Prop :=
  Runs ReadState.rest reader start value left

variable {α : Type} {left : Bytes}

variable {size : ℤ}

theorem gets_need {start : Bytes} (hsize : size ≤ start.length) :
    Gets (need size) start ⟨⟩ start := by
  rintro state rfl
  exact ⟨state, need_run hsize, rfl⟩

theorem gets_peek (byte : Byte) : Gets peek (byte :: left) byte (byte :: left) := by
  rintro ⟨_, lengths⟩ rfl
  exact ⟨⟨byte :: left, lengths⟩, rfl, rfl⟩

theorem gets_advance {size : ℤ} {bytes : Bytes} (hsize : (bytes.length : ℤ) = size) :
    Gets (advance size) (bytes ++ left) ⟨⟩ left := by
  subst hsize
  rintro state hstart
  refine ⟨_, advance_run (Int.natCast_nonneg _) ?_, ?_⟩
  · rw [hstart, List.length_append]
    omega
  rw [hstart, Int.toNat_natCast, List.drop_left]

theorem gets_skip (byte : Byte) : Gets (advance 1) (byte :: left) ⟨⟩ left :=
  @gets_advance left 1 [byte] rfl

theorem gets_copy {bytes : Bytes} (hsize : (bytes.length : ℤ) = size) :
    Gets (copy size) (bytes ++ left) bytes (bytes ++ left) := by
  subst hsize
  rintro state hstart
  refine ⟨state, ?_, hstart⟩
  rw [copy_run (Int.natCast_nonneg _), hstart, Int.toNat_natCast, List.take_left]
  rw [hstart, List.length_append]
  omega

theorem gets_fixed {size : ℤ} {bytes : Bytes} (hsize : (bytes.length : ℤ) = size) :
    Gets (readFixed size) (bytes ++ left) bytes left := by
  have hlength : size ≤ (bytes ++ left).length := by
    rw [List.length_append]
    omega
  apply (gets_need hlength).bind
  apply (gets_copy hsize).bind
  exact (gets_advance hsize).bind .pure

theorem one_le_length_cons (byte : Byte) (left : Bytes) : (1 : ℤ) ≤ (byte :: left).length := by
  rw [List.length_cons]
  omega

theorem gets_type {type : UbjType} (hdefined : type ≠ .undefined) :
    Gets readType (UBJ_TYPE type :: left) type left := by
  apply (gets_need (one_le_length_cons _ _)).bind
  apply (gets_peek _).bind
  rw [internalType_type hdefined]
  exact (gets_skip _).bind .pure

theorem gets_known {known : UbjType} (hknown : known ≠ .undefined) :
    Gets (typeOrRead known) left known left := by
  rw [typeOrRead, if_neg hknown]
  exact .pure

theorem gets_digits {type : UbjType} {bytes : Bytes} (hint : UBJ_ISINT type)
    (hsize : (bytes.length : ℤ) = UBJ_SIZE type) :
    Gets (int64Read type) (bytes ++ left) (decodeInt type bytes) left := by
  apply (gets_known (isInt_defined hint)).bind
  rw [if_pos hint]
  exact (gets_fixed hsize).bind .pure

theorem gets_int {value : BitVec 64} {field : Bytes} (hfield : IntField value field) :
    Gets (int64Read .undefined) (field ++ left) value left := by
  cases hfield with
  | digits hint hsize =>
    apply (gets_type (isInt_defined hint)).bind
    rw [if_pos hint]
    exact (gets_fixed hsize).bind .pure

theorem gets_length {field : Bytes} (hlength : LengthField size field) :
    Gets readLength (field ++ left) size left := by
  obtain ⟨value, hfield, rfl⟩ := hlength
  apply (gets_int hfield).bind
  rintro state hstate
  exact ⟨_, rfl, hstate⟩

theorem gets_string {field bytes : Bytes} (hlength : LengthField bytes.length field) :
    Gets readString (field ++ (bytes ++ left)) bytes left := by
  apply (gets_length hlength).bind
  have hneed : (bytes.length : ℤ) ≤ (bytes ++ left).length := by
    rw [List.length_append]
    omega
  apply (gets_need hneed).bind
  have hcopy : Gets (copyString bytes.length) (bytes ++ left) bytes (bytes ++ left) := by
    rw [copyString]
    split
    next hzero =>
      have hnil : bytes = [] := List.length_eq_zero_iff.mp (Int.ofNat.inj hzero)
      subst hnil
      exact .pure
    next => exact gets_copy rfl
  exact hcopy.bind ((gets_advance rfl).bind .pure)

theorem gets_count {field : Bytes} (hlength : LengthField size field) :
    Gets readCount (UBJ_TYPE .count :: field ++ left) size left := by
  apply (gets_peek _).bind
  exact (gets_skip _).bind (gets_length hlength)

variable {strong : UbjType}

theorem gets_header {head : Bytes} (hhead : Header strong size head) :
    Gets readHeader (head ++ left) (strong, size) left := by
  cases hhead with
  | typed hstrong hlength =>
    apply (gets_need (one_le_length_cons _ _)).bind
    apply (gets_peek _).bind
    apply (gets_skip _).bind
    apply (gets_type hstrong).bind
    apply (gets_need (one_le_length_cons _ _)).bind
    apply (gets_peek _).bind
    exact (gets_count hlength).bind .pure
  | counted hlength =>
    apply (gets_need (one_le_length_cons _ _)).bind
    apply (gets_peek _).bind
    exact (gets_count hlength).bind .pure

theorem gets_headless {start : Bytes} (hstart : start ≠ []) (hhead : Headless start) :
    Gets readHeader start (.undefined, -1) start := by
  cases start with
  | nil => exact absurd rfl hstart
  | cons byte left =>
    obtain ⟨hstrong, hcount⟩ := hhead byte rfl
    apply (gets_need (one_le_length_cons _ _)).bind
    apply (gets_peek _).bind
    rw [if_neg hstrong]
    have hnone : Gets readCount (byte :: left) (-1) (byte :: left) := by
      apply (gets_peek _).bind
      rw [if_neg hcount]
      exact .pure
    exact hnone.bind .pure

section Members

variable {ι : Type} {value : ι → α} {bytes : ι → Bytes}

theorem gets_counted {member : Reader α} {items : List ι}
    (hmember : ∀ item ∈ items, ∀ left, Gets member (bytes item ++ left) (value item) left) :
    Gets (readCounted member items.length) ((items.map bytes).flatten ++ left)
      (items.map value) left := by
  induction items with
  | nil => exact .pure
  | cons item items ih =>
    rw [List.forall_mem_cons] at hmember
    rw [List.map_cons, List.flatten_cons, List.append_assoc]
    exact (hmember.1 _).bind ((ih hmember.2).bind .pure)

def Continues (closing : Byte) (bytes : Bytes) : Prop :=
  ∃ byte tail, bytes = byte :: tail ∧ byte ≠ closing

variable {closing : Byte}

theorem Continues.append {bytes : Bytes} (hbytes : Continues closing bytes)
    (left : Bytes) : Continues closing (bytes ++ left) := by
  obtain ⟨byte, tail, rfl, hbyte⟩ := hbytes
  exact ⟨byte, tail ++ left, rfl, hbyte⟩

theorem Continues.ne_nil {bytes : Bytes} (hbytes : Continues closing bytes) : bytes ≠ [] := by
  obtain ⟨byte, tail, rfl, -⟩ := hbytes
  exact List.cons_ne_nil byte tail

theorem readUncounted_continues {member : Reader α} {rounds : ℕ}
    {start middle left : Bytes} {first : α} {values : List α} (hstart : Continues closing start)
    (hmember : Gets member start first middle)
    (hrest : Gets (readUncounted member closing rounds) middle values left) :
    Gets (readUncounted member closing (rounds + 1)) start (first :: values) left := by
  obtain ⟨byte, tail, rfl, hbyte⟩ := hstart
  apply (gets_need (one_le_length_cons _ _)).bind
  apply (gets_peek _).bind
  rw [if_neg hbyte]
  exact hmember.bind (hrest.bind .pure)

theorem gets_uncounted {member : Reader α} {closing : Byte} {rounds : ℕ} {items : List ι}
    (hrounds : items.length < rounds) (hbytes : ∀ item ∈ items, Continues closing (bytes item))
    (hmember : ∀ item ∈ items, ∀ left, Gets member (bytes item ++ left) (value item) left) :
    Gets (readUncounted member closing rounds)
      ((items.map bytes).flatten ++ (closing :: left)) (items.map value) left := by
  induction items generalizing rounds with
  | nil =>
    cases rounds with
    | zero => exact absurd hrounds (Nat.not_lt_zero _)
    | succ rounds =>
      apply (gets_need (one_le_length_cons _ _)).bind
      apply (gets_peek _).bind
      rw [if_pos rfl]
      exact (gets_skip _).bind .pure
  | cons item items ih =>
    cases rounds with
    | zero => exact absurd hrounds (Nat.not_lt_zero _)
    | succ rounds =>
      rw [List.forall_mem_cons] at hmember hbytes
      rw [List.map_cons, List.flatten_cons, List.append_assoc]
      exact readUncounted_continues (hbytes.1.append _) (hmember.1 _)
        (ih (Nat.lt_of_succ_lt_succ hrounds) hbytes.2 hmember.2)

theorem length_le_flatten {items : List ι} (hbytes : ∀ item ∈ items, bytes item ≠ []) :
    items.length ≤ (items.map bytes).flatten.length := by
  induction items with
  | nil => exact Nat.le_refl 0
  | cons item items ih =>
    rw [List.forall_mem_cons] at hbytes
    have hpos := List.length_pos_iff.mpr hbytes.1
    have hrest := ih hbytes.2
    rw [List.map_cons, List.flatten_cons, List.length_append, List.length_cons]
    omega

theorem length_le_flatten_of_mem {items : List ι} {item : ι} (hmem : item ∈ items) :
    (bytes item).length ≤ (items.map bytes).flatten.length :=
  (List.sublist_flatten_of_mem (List.mem_map_of_mem hmem)).length_le

theorem Layout.length_le {number : ℕ} {body all : Bytes}
    (hlayout : Layout closing number strong body all) : body.length ≤ all.length := by
  cases hlayout with
  | counted hhead =>
    rw [List.length_append]
    omega
  | closed hhead =>
    rw [List.length_append]
    omega

/-- The members of an array or an object, in either layout. -/
theorem gets_members {member : UbjType → Reader α} {rounds : ℕ}
    {items : List ι} {all : Bytes} (hrounds : all.length ≤ rounds)
    (hlayout : Layout closing items.length strong (items.map bytes).flatten all)
    (hbytes : strong = .undefined → ∀ item ∈ items, Continues closing (bytes item))
    (hmember : ∀ item ∈ items, ∀ left,
      Gets (member strong) (bytes item ++ left) (value item) left) :
    Gets (readMembers member closing rounds) (all ++ left) (items.map value) left := by
  cases hlayout with
  | counted hhead =>
    rw [List.append_assoc]
    apply (gets_header hhead).bind
    exact gets_counted hmember
  | closed hhead =>
    have hstart : (items.map bytes).flatten ++ [closing] ++ left ≠ [] := by simp
    have hheadless : Headless ((items.map bytes).flatten ++ [closing] ++ left) := by
      intro byte hbyte
      rw [List.head?_append_of_ne_nil _ (by simp)] at hbyte
      exact hhead byte hbyte
    apply (gets_headless hstart hheadless).bind
    rw [List.append_assoc]
    have hcontinues := hbytes rfl
    have hcount := length_le_flatten fun item hmem => (hcontinues item hmem).ne_nil
    apply gets_uncounted _ hcontinues hmember
    rw [List.length_append, List.length_singleton] at hrounds
    omega

end Members

theorem type_ne_closing (type : UbjType) :
    UBJ_TYPE type ≠ arrayEnd ∧ UBJ_TYPE type ≠ objectEnd := by
  cases type
  all_goals decide

theorem Encodes.continues {depth : ℕ} {value : Value} {bytes : Bytes}
    (hvalue : Encodes depth .undefined value bytes) : Continues arrayEnd bytes := by
  obtain ⟨type, tail, -, rfl, -⟩ := hvalue.undefined_cons
  exact ⟨_, tail, rfl, (type_ne_closing type).1⟩

theorem LengthField.continues {field : Bytes} (hlength : LengthField size field) :
    Continues objectEnd field := by
  obtain ⟨_, hfield, -⟩ := hlength
  cases hfield with
  | digits hint hsize => exact ⟨_, _, rfl, (type_ne_closing _).2⟩

theorem Encodes.name_continues {depth : ℕ} {value : Value} {bytes : Bytes}
    (hname : Encodes depth .string value bytes) : Continues objectEnd bytes := by
  obtain ⟨name, field, -, hlength, rfl⟩ := hname.string_cons
  exact hlength.continues.append name

theorem gets_pair {read : UbjType → Reader Value} {member : Member}
    (hname : ∀ left, Gets (read .string) (member.nameBytes ++ left) (.str member.name) left)
    (hvalue : ∀ left, Gets (read strong) (member.valueBytes ++ left) member.value left) :
    Gets (readPair read strong) (member.bytes ++ left) member.pair left := by
  rw [Member.bytes, List.append_assoc]
  apply (hname _).bind
  exact (hvalue _).bind .pure

theorem gets_internal_known {rounds depth : ℕ} {known : UbjType} {start : Bytes} {value : Value}
    (hknown : known ≠ .undefined)
    (hvalue : Gets (readValue (readInternal rounds depth) rounds depth known) start value left) :
    Gets (readInternal rounds (depth + 1) known) start value left :=
  (gets_known hknown).bind hvalue

/-- Well-formed bytes are read, with as many rounds for each loop as there are bytes. -/
theorem Encodes.gets {rounds depth : ℕ} {known : UbjType} {value : Value} {bytes : Bytes}
    (hvalue : Encodes depth known value bytes) (hrounds : bytes.length ≤ rounds) :
    ∀ left, Gets (readInternal rounds depth known) (bytes ++ left) value left := by
  induction hvalue with
  | @tagged depth type value bytes htype hvalue ih =>
    intro left
    have hshorter : bytes.length ≤ rounds := by
      rw [List.length_cons] at hrounds
      omega
    have hread := ih hshorter left
    cases depth with
    | zero => exact absurd rfl hvalue.depth_ne_zero
    | succ depth =>
      rw [readInternal, typeOrRead, if_neg htype] at hread
      exact (gets_type htype).bind hread
  | null htype =>
    intro left
    rcases htype with rfl | rfl | rfl | rfl
    all_goals exact gets_internal_known (by decide) .pure
  | boolFalse => exact fun left => gets_internal_known (by decide) .pure
  | boolTrue => exact fun left => gets_internal_known (by decide) .pure
  | int hint hsize =>
    intro left
    apply gets_internal_known (isInt_defined hint)
    unfold readValue
    rw [if_pos hint]
    exact (gets_digits hint hsize).bind .pure
  | float32 hsize =>
    intro left
    apply gets_internal_known (by decide)
    exact (gets_fixed (congrArg Int.ofNat hsize)).bind .pure
  | float64 hsize =>
    intro left
    apply gets_internal_known (by decide)
    exact (gets_fixed (congrArg Int.ofNat hsize)).bind .pure
  | @char _ byte =>
    intro left
    apply gets_internal_known (by decide)
    exact (@gets_fixed left 1 [byte] rfl).bind .pure
  | string htype hlength =>
    intro left
    rw [List.append_assoc]
    rcases htype with rfl | rfl
    · exact gets_internal_known (by decide) ((gets_string hlength).bind .pure)
    · exact gets_internal_known (by decide) ((gets_string hlength).bind .pure)
  | @array depth strong items bytes hdepth hitems hlayout ih =>
    intro left
    apply gets_internal_known (by decide)
    change Gets (if depth = 0 then _ else _) _ _ _
    rw [if_neg hdepth]
    apply Runs.bind_pure
    apply gets_members hrounds hlayout
    · rintro rfl item hmem
      exact (hitems item hmem).continues
    intro item hmem
    apply ih item hmem
    have hlength := @length_le_flatten_of_mem _ Prod.snd _ _ hmem
    exact Nat.le_trans (Nat.le_trans hlength hlayout.length_le) hrounds
  | @object depth strong members bytes hdepth hnames hvalues hlayout ihname ihvalue =>
    intro left
    apply gets_internal_known (by decide)
    change Gets (if depth = 0 then _ else _) _ _ _
    rw [if_neg hdepth]
    apply Runs.bind_pure
    apply gets_members hrounds hlayout
    · rintro - item hmem
      exact (hnames item hmem).name_continues.append _
    intro member hmem left
    have hlength := @length_le_flatten_of_mem _ Member.bytes _ _ hmem
    have hbytes := Nat.le_trans (Nat.le_trans hlength hlayout.length_le) hrounds
    rw [Member.bytes, List.length_append] at hbytes
    exact gets_pair (ihname member hmem (by omega)) (ihvalue member hmem (by omega))

end Amberchain.Ubjson
