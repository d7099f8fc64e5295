import Amberchain.Base.Consuming
import Amberchain.Json.UbjsonFormat

/-!
# What the reader accepts

From an input that comes to no negative length, the reader takes the bytes of the value
that it returns, or it reports an error.  It looks at no byte outside the input, and all
the lengths that it uses are lengths of the format, so none is negative.
-/

namespace Amberchain.Ubjson

open Consuming

def Nonnegative (state : ReadState) : Prop :=
  ∀ size ∈ state.lengths, 0 ≤ size

/-- The error is one that is reported through `err`. -/
def Reported (stop : ReadStop) : Prop :=
  ∃ err, stop = .error err

abbrev Reads {α : Type} (reader : Reader α) (start : Bytes) (accepts : α → Bytes → Prop) :
    Prop :=
  Consumes ReadState.rest Nonnegative Reported reader start accepts

variable {α : Type} {start : Bytes}

theorem reported (err : McError) : Reported (.error err) :=
  ⟨err, rfl⟩

theorem reads_need (size : ℤ) :
    Reads (need size) start fun _ used => used = [] ∧ size ≤ start.length := by
  rintro state rfl hstate
  by_cases hsize : size ≤ state.rest.length
  · rw [need_run hsize]
    exact ⟨hstate, [], rfl, rfl, hsize⟩
  rw [need_short (Int.not_le.mp hsize)]
  exact ⟨reported _, hstate, [], rfl⟩

theorem reads_peek (hstart : start ≠ []) :
    Reads peek start fun byte used => used = [] ∧ start.head? = some byte := by
  rintro ⟨rest, lengths⟩ rfl hstate
  cases rest with
  | nil => exact absurd rfl hstart
  | cons byte rest => exact ⟨hstate, [], rfl, rfl, rfl⟩

theorem reads_advance {size : ℤ} (hsize : 0 ≤ size) (hlength : size ≤ start.length) :
    Reads (advance size) start fun _ used => used = start.take size.toNat := by
  rintro state rfl hstate
  rw [advance_run hsize hlength]
  exact ⟨hstate, _, (List.take_append_drop _ _).symm, rfl⟩

theorem reads_copy {size : ℤ} (hsize : 0 ≤ size) (hlength : size ≤ start.length) :
    Reads (copy size) start fun bytes used => used = [] ∧ bytes = start.take size.toNat := by
  rintro state rfl hstate
  rw [copy_run hsize hlength]
  exact ⟨hstate, [], rfl, rfl, rfl⟩

theorem ne_nil_of_one_le (hlength : (1 : ℤ) ≤ start.length) : start ≠ [] := by
  rintro rfl
  simp at hlength

theorem take_one_of_head? {byte : Byte} (hhead : start.head? = some byte) :
    start.take (1 : ℤ).toNat = [byte] := by
  cases start with
  | nil => cases hhead
  | cons first rest =>
    cases hhead
    rfl

theorem reads_skip {byte : Byte} (hhead : start.head? = some byte) :
    Reads (advance 1) start fun _ used => used = [byte] := by
  have hlength : (1 : ℤ) ≤ start.length := by
    cases start with
    | nil => cases hhead
    | cons first rest =>
      rw [List.length_cons]
      omega
  apply (reads_advance (by decide) hlength).weaken
  rintro ⟨⟩ - - rfl
  exact take_one_of_head? hhead

theorem reads_fixed {size : ℤ} (hsize : 0 ≤ size) :
    Reads (readFixed size) start fun bytes used => used = bytes ∧ (bytes.length : ℤ) = size := by
  apply (reads_need size).bind_nothing
  intro _ hlength
  apply (reads_copy hsize hlength).bind_nothing
  rintro _ rfl
  apply Consumes.bind_pure
  apply (reads_advance hsize hlength).weaken
  rintro _ used - rfl
  refine ⟨rfl, ?_⟩
  rw [List.length_take]
  omega

theorem reads_type :
    Reads readType start fun type used => type ≠ .undefined ∧ used = [UBJ_TYPE type] := by
  apply (reads_need 1).bind_nothing
  intro _ hlength
  apply (reads_peek (ne_nil_of_one_le hlength)).bind_nothing
  intro byte hhead
  cases htype : UBJ_INTERNAL_TYPE byte with
  | none => exact Consumes.throw (reported _)
  | some type =>
    obtain ⟨rfl, hdefined⟩ := internalType_eq_some htype
    apply Consumes.bind_pure
    apply (reads_skip hhead).weaken
    rintro _ used - rfl
    exact ⟨hdefined, rfl⟩

theorem reads_typeOrRead (known : UbjType) : Reads (typeOrRead known) start fun type used =>
      type ≠ .undefined ∧ ((known = .undefined ∧ used = [UBJ_TYPE type])
        ∨ (known = type ∧ used = [])) := by
  rw [typeOrRead]
  split
  next hknown =>
    apply reads_type.weaken
    rintro type used - ⟨hdefined, hused⟩
    exact ⟨hdefined, .inl ⟨hknown, hused⟩⟩
  next hknown => exact Consumes.pure ⟨hknown, .inr ⟨rfl, rfl⟩⟩

theorem reads_digits {type : UbjType} (hint : UBJ_ISINT type) :
    Reads (int64Read type) start fun value used =>
      (used.length : ℤ) = UBJ_SIZE type ∧ value = decodeInt type used := by
  rw [int64Read, typeOrRead, if_neg (isInt_defined hint), pure_bind, if_pos hint]
  apply Consumes.bind_pure
  apply (reads_fixed (Int.le_of_lt (size_of_isInt hint))).weaken
  rintro bytes used - ⟨rfl, hsize⟩
  exact ⟨hsize, rfl⟩

theorem reads_int : Reads (int64Read .undefined) start IntField := by
  apply reads_type.bind
  rintro type _ left - ⟨-, rfl⟩
  split
  next hint =>
    apply Consumes.bind_pure
    apply (reads_fixed (Int.le_of_lt (size_of_isInt hint))).weaken
    rintro bytes used - ⟨rfl, hsize⟩
    exact IntField.digits hint hsize
  next => exact Consumes.throw (reported _)

def LengthFree (start : Bytes) : Prop :=
  ∀ size field left, start = field ++ left → LengthField size field → 0 ≤ size

theorem reads_length (hfree : LengthFree start) :
    Reads readLength start fun size used => LengthField size used ∧ 0 ≤ size := by
  apply reads_int.bind
  intro value used left hstart hfield
  have hlength : LengthField (toInt32 value.toNat) used := ⟨value, hfield, rfl⟩
  have hsize := hfree _ used left hstart hlength
  rintro state rfl hstate
  refine ⟨?_, [], rfl, ?_⟩
  · intro size hmem
    rcases List.mem_cons.mp hmem with rfl | hmem
    · exact hsize
    · exact hstate size hmem
  simpa only [List.append_nil] using And.intro hlength hsize

theorem reads_string (hfree : LengthFree start) : Reads readString start fun bytes used =>
      ∃ field, LengthField bytes.length field ∧ used = field ++ bytes := by
  apply (reads_length hfree).bind
  rintro size field left - ⟨hfield, hsize⟩
  apply (reads_need size).bind_nothing
  intro _ hlength
  have hcopy : Reads (copyString size) left fun bytes used =>
      used = [] ∧ bytes = left.take size.toNat := by
    rw [copyString]
    split
    next hzero =>
      apply Consumes.pure
      rw [hzero]
      exact ⟨rfl, rfl⟩
    next => exact reads_copy hsize hlength
  apply hcopy.bind_nothing
  rintro _ rfl
  apply Consumes.bind_pure
  apply (reads_advance hsize hlength).weaken
  rintro _ used - rfl
  refine ⟨field, ?_, rfl⟩
  have hcount : ((left.take size.toNat).length : ℤ) = size := by
    rw [List.length_take]
    omega
  rwa [hcount]

/-- No number of members at the start of the input is negative. -/
def HeaderFree (start : Bytes) : Prop :=
  ∀ strong size head left, start = head ++ left → Header strong size head → 0 ≤ size

/-- What a header was found to be: one with a number of members, or none. -/
inductive HeaderRead (start : Bytes) : UbjType × ℤ → Bytes → Prop where
  | header {strong : UbjType} {size : ℤ} {used : Bytes} (hhead : Header strong size used)
      (hsize : 0 ≤ size) : HeaderRead start (strong, size) used
  | headless (hhead : Headless start) : HeaderRead start (.undefined, -1) []

theorem reads_count (hstart : start ≠ [])
    (hfree : ∀ left, start = UBJ_TYPE .count :: left → LengthFree left) :
    Reads readCount start fun size used =>
      (∃ field, used = UBJ_TYPE .count :: field ∧ LengthField size field ∧ 0 ≤ size)
        ∨ (start.head? ≠ some (UBJ_TYPE .count) ∧ used = [] ∧ size = -1) := by
  apply (reads_peek hstart).bind_nothing
  intro byte hhead
  split
  next hcount =>
    subst hcount
    apply (reads_skip hhead).bind
    rintro _ _ left hleft rfl
    apply (reads_length (hfree left hleft)).weaken
    rintro size used - ⟨hfield, hsize⟩
    exact .inl ⟨used, rfl, hfield, hsize⟩
  next hcount =>
    apply Consumes.pure
    refine .inr ⟨?_, rfl, rfl⟩
    rw [hhead]
    intro heq
    exact hcount (Option.some.inj heq)

theorem reads_header (hfree : HeaderFree start) : Reads readHeader start (HeaderRead start) := by
  apply (reads_need 1).bind_nothing
  intro _ hlength
  apply (reads_peek (ne_nil_of_one_le hlength)).bind_nothing
  intro byte hhead
  split
  next hbyte =>
    subst hbyte
    apply (reads_skip hhead).bind
    rintro _ _ afterMark hmark rfl
    apply reads_type.bind
    rintro strong _ afterType htype ⟨hdefined, rfl⟩
    apply (reads_need 1).bind_nothing
    intro _ hlength
    apply (reads_peek (ne_nil_of_one_le hlength)).bind_nothing
    intro count hcount
    split
    · exact Consumes.throw (reported _)
    next heq =>
      rw [not_not] at heq
      subst heq
      apply Consumes.bind_pure
      have hstart : afterType ≠ [] := ne_nil_of_one_le hlength
      apply (reads_count hstart _).weaken
      · rintro size used - (⟨field, rfl, hfield, hsize⟩ | ⟨hno, -, -⟩)
        · exact .header (.typed hdefined hfield) hsize
        · exact absurd hcount hno
      intro left hleft size field more hmore hfield
      apply hfree strong size _ more _ (.typed hdefined hfield)
      rw [hmark, htype, hleft, hmore]
      rfl
  next hbyte =>
    apply Consumes.bind_pure
    apply (reads_count (ne_nil_of_one_le hlength) _).weaken
    · rintro size used - (⟨field, rfl, hfield, hsize⟩ | ⟨hno, rfl, rfl⟩)
      · exact .header (.counted hfield) hsize
      apply HeaderRead.headless
      intro first hfirst
      rw [hhead] at hno hfirst
      cases hfirst
      exact ⟨hbyte, fun heq => hno (congrArg some heq)⟩
    intro left hleft size field more hmore hfield
    apply hfree .undefined size _ more _ (.counted hfield)
    rw [hleft, hmore]
    rfl

section Members

variable {ι : Type} (value : ι → α) (bytes : ι → Bytes)

def IsMember (good : ι → Prop) (result : α) (used : Bytes) : Prop :=
  ∃ item, good item ∧ value item = result ∧ bytes item = used

variable {value bytes} {good : UbjType → ι → Prop}

theorem reads_counted {good : ι → Prop} {member : Reader α} {count : ℕ}
    (hmember : ∀ (items : List ι) (left : Bytes), items.length < count →
      (∀ item ∈ items, good item) → start = (items.map bytes).flatten ++ left →
      Reads member left (IsMember value bytes good)) :
    Reads (readCounted member count) start fun values used =>
      ∃ items : List ι, items.length = count ∧ (∀ item ∈ items, good item)
        ∧ values = items.map value ∧ used = (items.map bytes).flatten := by
  induction count generalizing start with
  | zero => exact Consumes.pure ⟨[], rfl, fun _ hmem => (List.not_mem_nil hmem).elim, rfl, rfl⟩
  | succ count ih =>
    have hfirst := hmember [] start (Nat.succ_pos count)
      (fun _ hmem => (List.not_mem_nil hmem).elim) rfl
    apply hfirst.bind
    rintro _ _ left hstart ⟨item, hgood, rfl, rfl⟩
    apply Consumes.bind_pure
    apply (ih _).weaken
    · rintro values used - ⟨items, hlength, hitems, rfl, rfl⟩
      refine ⟨item :: items, congrArg Nat.succ hlength, ?_, rfl, rfl⟩
      exact List.forall_mem_cons.mpr ⟨hgood, hitems⟩
    intro items more hlength hitems hmore
    apply hmember (item :: items) more (Nat.succ_lt_succ hlength)
      (List.forall_mem_cons.mpr ⟨hgood, hitems⟩)
    rw [hstart, hmore, List.map_cons, List.flatten_cons, List.append_assoc]

theorem reads_uncounted {good : ι → Prop} {member : Reader α} {closing : Byte} {rounds : ℕ}
    (hrounds : start.length < rounds) (hbytes : ∀ item, good item → bytes item ≠ [])
    (hmember : ∀ (items : List ι) (left : Bytes), (∀ item ∈ items, good item) →
      start = (items.map bytes).flatten ++ left → Reads member left (IsMember value bytes good)) :
    Reads (readUncounted member closing rounds) start fun values used =>
      ∃ items : List ι, (∀ item ∈ items, good item)
        ∧ values = items.map value ∧ used = (items.map bytes).flatten ++ [closing] := by
  induction rounds generalizing start with
  | zero => exact absurd hrounds (Nat.not_lt_zero _)
  | succ rounds ih =>
    apply (reads_need 1).bind_nothing
    intro _ hlength
    apply (reads_peek (ne_nil_of_one_le hlength)).bind_nothing
    intro byte hhead
    split
    next hclosing =>
      subst hclosing
      apply Consumes.bind_pure
      apply (reads_skip hhead).weaken
      rintro _ used - rfl
      exact ⟨[], fun _ hmem => (List.not_mem_nil hmem).elim, rfl, rfl⟩
    next hclosing =>
      apply (hmember [] start (fun _ hmem => (List.not_mem_nil hmem).elim) rfl).bind
      rintro _ _ left hstart ⟨item, hgood, rfl, rfl⟩
      have hshorter : left.length < rounds := by
        have hpos := List.length_pos_iff.mpr (hbytes item hgood)
        rw [hstart, List.length_append] at hrounds
        omega
      apply Consumes.bind_pure
      apply (ih hshorter _).weaken
      · rintro values used - ⟨items, hitems, rfl, rfl⟩
        refine ⟨item :: items, List.forall_mem_cons.mpr ⟨hgood, hitems⟩, rfl, ?_⟩
        rw [List.map_cons, List.flatten_cons, List.append_assoc]
      intro items more hitems hmore
      apply hmember (item :: items) more (List.forall_mem_cons.mpr ⟨hgood, hitems⟩)
      rw [hstart, hmore, List.map_cons, List.flatten_cons, List.append_assoc]

/-- The members of an array or an object, when each can be read where it stands. -/
theorem reads_members {member : UbjType → Reader α} {closing : Byte} {rounds : ℕ}
    (hrounds : start.length < rounds) (hfree : HeaderFree start)
    (hbytes : ∀ item, good .undefined item → bytes item ≠ [])
    (hmember : ∀ strong head (items : List ι) left, (∀ item ∈ items, good strong item) →
      start = head ++ ((items.map bytes).flatten ++ left) →
      Opening items.length strong head ((items.map bytes).flatten ++ left) →
      Reads (member strong) left (IsMember value bytes (good strong))) :
    Reads (readMembers member closing rounds) start fun values used =>
      ∃ (strong : UbjType) (items : List ι), (∀ item ∈ items, good strong item)
        ∧ values = items.map value
        ∧ Layout closing items.length strong (items.map bytes).flatten used := by
  apply (reads_header hfree).bind
  rintro ⟨strong, size⟩ head left hstart hhead
  cases hhead with
  | header hhead hsize =>
    rw [readBehind, if_pos hsize]
    apply (reads_counted _).weaken
    · rintro values used - ⟨items, hlength, hitems, rfl, rfl⟩
      refine ⟨strong, items, hitems, rfl, .counted ?_⟩
      rwa [hlength, Int.toNat_of_nonneg hsize]
    intro items more hlength hitems hmore
    apply hmember strong head items more hitems
    · rw [hstart, hmore]
    · exact .counted hhead (by omega)
  | headless hhead =>
    subst hstart
    apply (reads_uncounted hrounds hbytes _).weaken
    · rintro values used ⟨more, hmore⟩ ⟨items, hitems, rfl, rfl⟩
      refine ⟨.undefined, items, hitems, rfl, .closed ?_⟩
      intro byte hbyte
      apply hhead byte
      rw [hmore, List.head?_append, hbyte]
      rfl
    intro items more hitems hmore
    apply hmember .undefined [] items more hitems hmore
    rw [← hmore]
    exact .closed hhead

end Members

theorem Encodes.bytes_ne_nil {depth : ℕ} {value : Value} {bytes : Bytes}
    (hvalue : Encodes depth .undefined value bytes) : bytes ≠ [] := by
  obtain ⟨-, -, -, rfl, -⟩ := hvalue.undefined_cons
  exact List.cons_ne_nil _ _

variable {rounds depth : ℕ}

def ReadsBelow (rounds depth : ℕ) : Prop :=
  ∀ known start, start.length < rounds → ¬ MeetsNegative depth known start →
    Reads (readInternal rounds depth known) start (Encodes depth known)

theorem reads_array (hbelow : ReadsBelow rounds depth) (hdepth : depth ≠ 0)
    (hrounds : start.length < rounds) (hfree : ¬ MeetsNegative (depth + 1) .array start) :
    Reads (readMembers (readInternal rounds depth) arrayEnd rounds) start fun values used =>
      Encodes (depth + 1) .array (.arr values) used := by
  have hheader : HeaderFree start := by
    intro strong size head left hstart hhead
    by_contra hsize
    apply hfree
    rw [hstart]
    exact .number (.inl rfl) hdepth hhead (Int.not_le.mp hsize)
  have hmembers := @reads_members _ start (Value × Bytes) Prod.fst Prod.snd
    (fun strong item => Encodes depth strong item.1 item.2) (readInternal rounds depth)
    arrayEnd rounds hrounds hheader (fun _ hitem => hitem.bytes_ne_nil)
  apply (hmembers _).weaken
  · rintro values used - ⟨strong, items, hitems, rfl, hlayout⟩
    exact .array hdepth hitems hlayout
  intro strong head items left hitems hstart hopening
  have hleft : left.length < rounds := by
    rw [hstart, List.length_append, List.length_append] at hrounds
    omega
  apply (hbelow strong left hleft _).weaken
  · intro value used _ hvalue
    exact ⟨(value, used), hvalue, rfl, rfl⟩
  intro hmeets
  apply hfree
  rw [hstart]
  exact .item hdepth hitems hopening hmeets

theorem reads_object (hbelow : ReadsBelow rounds depth) (hdepth : depth ≠ 0)
    (hrounds : start.length < rounds) (hfree : ¬ MeetsNegative (depth + 1) .object start) :
    Reads (readMembers (readPair (readInternal rounds depth)) objectEnd rounds) start
      fun members used => Encodes (depth + 1) .object (.obj members) used := by
  have hheader : HeaderFree start := by
    intro strong size head left hstart hhead
    by_contra hsize
    apply hfree
    rw [hstart]
    exact .number (.inr rfl) hdepth hhead (Int.not_le.mp hsize)
  have hmembers := @reads_members _ start Member Member.pair Member.bytes
    (fun strong member => Encodes depth .string (.str member.name) member.nameBytes
      ∧ Encodes depth strong member.value member.valueBytes)
    (readPair (readInternal rounds depth)) objectEnd rounds hrounds hheader
    (fun member hmember => List.append_ne_nil_of_right_ne_nil _ hmember.2.bytes_ne_nil)
  apply (hmembers _).weaken
  · rintro values used - ⟨strong, members, hgood, rfl, hlayout⟩
    exact .object hdepth (fun member hmem => (hgood member hmem).1)
      (fun member hmem => (hgood member hmem).2) hlayout
  intro strong head members left hgood hstart hopening
  have hnames := fun member hmem => (hgood member hmem).1
  have hvalues := fun member hmem => (hgood member hmem).2
  have hleft : left.length < rounds := by
    rw [hstart, List.length_append, List.length_append] at hrounds
    omega
  have hname : ¬ MeetsNegative depth .string left := by
    intro hmeets
    apply hfree
    rw [hstart]
    exact .name hdepth hnames hvalues hopening hmeets
  apply (hbelow .string left hleft hname).bind
  intro nameValue nameBytes behind hbehind hnameValue
  obtain ⟨name, -, rfl, -⟩ := hnameValue.string_cons
  have hshorter : behind.length < rounds := by
    rw [hbehind, List.length_append] at hleft
    omega
  apply Consumes.bind_pure
  apply (hbelow strong behind hshorter _).weaken
  · intro value used _ hvalue
    exact ⟨⟨name, nameBytes, value, used⟩, ⟨hnameValue, hvalue⟩, rfl, rfl⟩
  intro hmeets
  rw [hbehind] at hopening hstart
  apply hfree
  rw [hstart]
  exact .value hdepth hnames hvalues hopening hnameValue hmeets

theorem reads_value (hbelow : ReadsBelow rounds depth) {type : UbjType}
    (hdefined : type ≠ .undefined) (hrounds : start.length < rounds)
    (hfree : ¬ MeetsNegative (depth + 1) type start) :
    Reads (readValue (readInternal rounds depth) rounds depth type) start
      (Encodes (depth + 1) type) := by
  unfold readValue
  split
  next hint =>
    apply Consumes.bind_pure
    apply (reads_digits hint).weaken
    rintro value used - ⟨hsize, rfl⟩
    exact .int hint hsize
  next hint =>
    have hstring : ∀ {type'}, type = type' → (type' = .string ∨ type' = .highPrecision) →
        Reads readString start fun bytes used => Encodes (depth + 1) type' (.str bytes) used := by
      rintro _ rfl htype
      apply (reads_string _).weaken
      · rintro bytes _ - ⟨field, hfield, rfl⟩
        exact .string htype hfield
      intro size field left hstart hfield
      by_contra hsize
      apply hfree
      rw [hstart]
      exact .string htype hfield (Int.not_le.mp hsize)
    cases type with
    | undefined => exact absurd rfl hdefined
    | nullType => exact Consumes.pure (.null (by decide))
    | noop => exact Consumes.pure (.null (by decide))
    | strongType => exact Consumes.pure (.null (by decide))
    | count => exact Consumes.pure (.null (by decide))
    | boolTrue => exact Consumes.pure .boolTrue
    | boolFalse => exact Consumes.pure .boolFalse
    | char =>
      apply Consumes.bind_pure
      apply (reads_fixed (by decide)).weaken
      rintro bytes used - ⟨rfl, hsize⟩
      obtain ⟨-, rfl⟩ := List.length_eq_one_iff.mp (Int.ofNat.inj hsize)
      exact .char
    | string => exact Consumes.bind_pure (hstring rfl (.inl rfl))
    | highPrecision => exact Consumes.bind_pure (hstring rfl (.inr rfl))
    | float32 =>
      apply Consumes.bind_pure
      apply (reads_fixed (by decide)).weaken
      rintro bytes used - ⟨rfl, hsize⟩
      exact .float32 (Int.ofNat.inj hsize)
    | float64 =>
      apply Consumes.bind_pure
      apply (reads_fixed (by decide)).weaken
      rintro bytes used - ⟨rfl, hsize⟩
      exact .float64 (Int.ofNat.inj hsize)
    | array =>
      dsimp only
      split
      · exact Consumes.throw (reported _)
      next hdepth => exact Consumes.bind_pure (reads_array hbelow hdepth hrounds hfree)
    | object =>
      dsimp only
      split
      · exact Consumes.throw (reported _)
      next hdepth => exact Consumes.bind_pure (reads_object hbelow hdepth hrounds hfree)
    | int8 => exact absurd rfl hint
    | uint8 => exact absurd rfl hint
    | int16 => exact absurd rfl hint
    | int32 => exact absurd rfl hint
    | int64 => exact absurd rfl hint

/-- From an input that comes to no negative length, `ubjson_read_internal` takes the
bytes of the value that it returns, or reports an error. -/
theorem reads_internal (rounds : ℕ) : ∀ depth, ReadsBelow rounds depth
  | 0 => fun _ _ _ _ => Consumes.throw (reported _)
  | depth + 1 => by
    intro known start hrounds hfree
    apply (reads_typeOrRead known).bind
    rintro type used left hstart ⟨hdefined, hknown⟩
    have hleft : left.length < rounds := by
      rw [hstart, List.length_append] at hrounds
      omega
    rcases hknown with ⟨rfl, rfl⟩ | ⟨rfl, rfl⟩
    · apply (reads_value (reads_internal rounds depth) hdefined hleft _).weaken
      · intro value bytes _ hvalue
        exact .tagged hdefined hvalue
      intro hmeets
      apply hfree
      rw [hstart]
      exact .tagged hdefined hmeets
    subst hstart
    exact reads_value (reads_internal rounds depth) hdefined hleft hfree

end Amberchain.Ubjson
