import Amberchain.Json.UbjsonSurvey
import Amberchain.Json.UbjsonComplete

/-!
# Reading what was written

What `ubjson_write` writes of a value is read back as that value, unless the value has
an array of 2^31 or more members that take no bytes: their number is written with 64
bits and read as an `int`.
-/

namespace Amberchain.Ubjson

open Consuming Failing

/-! ## What a writer appends -/

/-- When it succeeds, the writer has appended bytes that are good to the script, whose
size is an `int`. -/
def Emits (program : Writer PUnit) (good : Bytes → Prop) : Prop :=
  ∀ script final, program script = .ok ⟨⟩ final →
    ∃ out, final = script ++ out ∧ good out ∧ (out ≠ [] → final.length < 2 ^ 31)

namespace Emits

variable {program : Writer PUnit} {good good' : Bytes → Prop}

theorem weaken (hprogram : Emits program good) (hgood : ∀ out, good out → good' out) :
    Emits program good' := by
  intro script final hrun
  obtain ⟨out, hfinal, hout, hsize⟩ := hprogram script final hrun
  exact ⟨out, hfinal, hgood out hout, hsize⟩

theorem throw (stop : WriteStop) : Emits (throw stop) good := by
  intro script final hrun
  cases hrun

theorem pure (hgood : good []) : Emits (pure ⟨⟩) good := by
  intro script final hrun
  cases hrun
  exact ⟨[], (List.append_nil _).symm, hgood, fun hnil => absurd rfl hnil⟩

/-- What is appended is as long as an `int` can say. -/
theorem bounded (hprogram : Emits program good) :
    Emits program fun out => good out ∧ out.length < 2 ^ 31 := by
  intro script final hrun
  obtain ⟨out, hfinal, hout, hsize⟩ := hprogram script final hrun
  refine ⟨out, hfinal, ⟨hout, ?_⟩, hsize⟩
  by_cases hnil : out = []
  · rw [hnil]
    decide
  have hlength := hsize hnil
  rw [hfinal, List.length_append] at hlength
  omega

theorem bind {next : Writer PUnit} {last : Bytes → Prop} (hprogram : Emits program good)
    (hnext : ∀ out, good out → Emits next fun more => last (out ++ more)) :
    Emits (program >>= fun _ => next) last := by
  intro script final hrun
  obtain ⟨⟨⟩, middle, hfirst, hsecond⟩ := bind_eq_ok.mp hrun
  obtain ⟨out, rfl, hout, hsize⟩ := hprogram script middle hfirst
  obtain ⟨more, rfl, hmore, hlength⟩ := hnext out hout _ final hsecond
  refine ⟨out ++ more, List.append_assoc _ _ _, hmore, ?_⟩
  intro hnil
  by_cases hempty : more = []
  · subst hempty
    rw [List.append_nil] at hnil ⊢
    exact hsize hnil
  exact hlength hempty

end Emits

theorem emits_setData (data : Bytes) : Emits (setData data) (· = data) := by
  intro script final hrun
  rw [setData, get_bind_apply] at hrun
  split at hrun
  next hsize =>
    cases hrun
    refine ⟨data, rfl, rfl, fun _ => ?_⟩
    rwa [List.length_append]
  next => cases hrun

theorem emits_countable (count : ℕ) :
    Emits (writeCountable count) fun out => out = [] ∧ count < 2 ^ 32 := by
  rw [writeCountable]
  split
  next hcount => exact .pure ⟨rfl, hcount⟩
  next => exact .throw _

theorem emits_digits {type : UbjType} {value : BitVec 64} (hholds : Holds type value.toInt) :
    Emits (int64Write value type) fun out =>
      (out.length : ℤ) = UBJ_SIZE type ∧ decodeInt type out = value := by
  rw [int64Write, if_neg (isInt_defined hholds.1)]
  apply (emits_setData _).weaken
  rintro _ rfl
  have hsize := size_of_isInt hholds.1
  refine ⟨?_, decodeInt_putBE hholds⟩
  rw [length_putBE, Int.toNat_of_nonneg (Int.le_of_lt hsize)]

/-- A number with its type before it. -/
theorem emits_int (value : BitVec 64) : Emits (int64Write value .undefined) (IntField value) := by
  apply (emits_setData _).weaken
  rintro _ rfl
  have hholds := bestIntType_holds value
  have hsize := size_of_isInt hholds.1
  have hlength : ((putBE value.toNat (UBJ_SIZE (bestIntType value.toInt)).toNat).length : ℤ)
      = UBJ_SIZE (bestIntType value.toInt) := by
    rw [length_putBE, Int.toNat_of_nonneg (Int.le_of_lt hsize)]
  have hfield := IntField.digits hholds.1 hlength
  rwa [decodeInt_putBE hholds] at hfield

theorem emits_length {count : ℕ} (hcount : count < 2 ^ 32) :
    Emits (int64Write (BitVec.ofNat 64 count) .undefined) (LengthField (toInt32 count)) := by
  apply (emits_int _).weaken
  intro out hfield
  refine ⟨_, hfield, ?_⟩
  rw [BitVec.toNat_ofNat, Nat.mod_eq_of_lt (by omega)]

theorem emits_header {count : ℕ} (hcount : count < 2 ^ 32) {strong : UbjType}
    (hstrong : strong ≠ .undefined) :
    Emits (writeHeader strong count) (Header strong (toInt32 count)) := by
  rw [writeHeader, if_neg hstrong]
  apply (emits_setData _).bind
  rintro _ rfl
  apply (emits_setData _).bind
  rintro _ rfl
  apply (emits_setData _).bind
  rintro _ rfl
  apply (emits_length hcount).weaken
  intro field hfield
  exact .typed hstrong hfield

theorem emits_forM {α ι : Type} {value : ι → α} {bytes : ι → Bytes} {good : ι → Prop}
    {body : α → Writer PUnit} {values : List α}
    (hbody : ∀ item ∈ values, Emits (body item) fun out =>
      ∃ member, value member = item ∧ good member ∧ bytes member = out) :
    Emits (values.forM body) fun out =>
      ∃ members : List ι, members.map value = values ∧ (∀ member ∈ members, good member)
        ∧ out = (members.map bytes).flatten := by
  induction values with
  | nil => exact .pure ⟨[], rfl, fun _ hmem => (List.not_mem_nil hmem).elim, rfl⟩
  | cons item values ih =>
    rw [List.forall_mem_cons] at hbody
    apply Emits.bind hbody.1
    rintro _ ⟨member, rfl, hgood, rfl⟩
    apply (ih hbody.2).weaken
    rintro _ ⟨members, rfl, hmembers, rfl⟩
    exact ⟨member :: members, rfl, List.forall_mem_cons.mpr ⟨hgood, hmembers⟩, rfl⟩

/-! ## Values that are not read back -/

/-- A value that takes no bytes when its type is known. -/
def Bare (value : Value) : Prop :=
  value = .null ∨ ∃ flag, value = .bool flag

/-- Somewhere in the value, an array of 2^31 or more members consists of nulls only, of
`true` only or of `false` only. -/
inductive HasLongArray : Value → Prop where
  | here {item : Value} {number : ℕ} (hitem : Bare item) (hnumber : 2 ^ 31 ≤ number) :
      HasLongArray (.arr (List.replicate number item))
  | item {value : Value} {values : List Value} (hmem : value ∈ values)
      (hvalue : HasLongArray value) : HasLongArray (.arr values)
  | member {member : Bytes × Value} {members : List (Bytes × Value)} (hmem : member ∈ members)
      (hvalue : HasLongArray member.2) : HasLongArray (.obj members)

def Misses {α : Type} (reader : Reader α) (start : Bytes) (value : α) : Prop :=
  ∀ state, state.rest = start → ∀ result final, reader state = .ok result final → result ≠ value

section Misses

variable {α β : Type} {start middle : Bytes}

theorem Misses.bind_right {first : Reader α} {second : α → Reader β} {value : α} {last : β}
    (hfirst : Gets first start value middle) (hsecond : Misses (second value) middle last) :
    Misses (first >>= second) start last := by
  intro state hstart result final hrun
  obtain ⟨behind, hbehind, hmiddle⟩ := hfirst state hstart
  rw [bind_apply, hbehind] at hrun
  exact hsecond behind hmiddle result final hrun

theorem Misses.bind_pure {first : Reader α} {f : α → β} {value : α}
    (hinjective : ∀ result, f result = f value → result = value)
    (hfirst : Misses first start value) :
    Misses (first >>= fun result => pure (f result)) start (f value) := by
  intro state hstart result final hrun
  obtain ⟨wrong, next, hwrong, hpure⟩ := bind_eq_ok.mp hrun
  cases hpure
  intro heq
  exact hfirst state hstart wrong final hwrong (hinjective wrong heq)

theorem Misses.head {first : Reader α} {rest : Reader (List α)} {value : α} {values : List α}
    (hfirst : Misses first start value) :
    Misses (first >>= fun result => rest >>= fun results => pure (result :: results)) start
      (value :: values) := by
  intro state hstart result final hrun
  obtain ⟨wrong, next, hwrong, hrest⟩ := bind_eq_ok.mp hrun
  obtain ⟨results, last, -, hpure⟩ := bind_eq_ok.mp hrest
  cases hpure
  intro heq
  exact hfirst state hstart wrong next hwrong (List.cons.inj heq).1

theorem Misses.tail {first : Reader α} {rest : Reader (List α)} {value : α} {values : List α}
    (hfirst : Gets first start value middle) (hrest : Misses rest middle values) :
    Misses (first >>= fun result => rest >>= fun results => pure (result :: results)) start
      (value :: values) :=
  .bind_right hfirst (.bind_pure (fun _ heq => (List.cons.inj heq).2) hrest)

end Misses

section Members

variable {α ι : Type} {value : ι → α} {bytes : ι → Bytes} {left : Bytes} {items : List ι}

def ReadsMember (value : ι → α) (bytes : ι → Bytes) (member : Reader α) (item : ι) : Prop :=
  ∀ left, Gets member (bytes item ++ left) (value item) left

def MissesMember (value : ι → α) (bytes : ι → Bytes) (member : Reader α) (item : ι) : Prop :=
  ∀ left, Misses member (bytes item ++ left) (value item)

theorem misses_counted {member : Reader α}
    (hall : ∀ item ∈ items, ReadsMember value bytes member item
      ∨ MissesMember value bytes member item)
    (hsome : ∃ item ∈ items, MissesMember value bytes member item) :
    Misses (readCounted member items.length) ((items.map bytes).flatten ++ left)
      (items.map value) := by
  induction items with
  | nil =>
    obtain ⟨item, hmem, -⟩ := hsome
    cases hmem
  | cons item items ih =>
    rw [List.forall_mem_cons] at hall
    rw [List.map_cons, List.flatten_cons, List.append_assoc]
    by_cases hmiss : MissesMember value bytes member item
    · exact (hmiss _).head
    have hread := hall.1.resolve_right hmiss
    apply Misses.tail (hread _)
    apply ih hall.2
    obtain ⟨other, hmem, hother⟩ := hsome
    rcases List.mem_cons.mp hmem with rfl | hmem
    · exact absurd hother hmiss
    exact ⟨other, hmem, hother⟩

theorem misses_uncounted {member : Reader α} {closing : Byte} {rounds : ℕ}
    (hbytes : ∀ item ∈ items, Continues closing (bytes item))
    (hall : ∀ item ∈ items, ReadsMember value bytes member item
      ∨ MissesMember value bytes member item)
    (hsome : ∃ item ∈ items, MissesMember value bytes member item) :
    Misses (readUncounted member closing rounds) ((items.map bytes).flatten ++ left)
      (items.map value) := by
  induction items generalizing rounds with
  | nil =>
    obtain ⟨item, hmem, -⟩ := hsome
    cases hmem
  | cons item items ih =>
    cases rounds with
    | zero =>
      intro state hstart result final hrun
      cases hrun
    | succ rounds =>
      rw [List.forall_mem_cons] at hall hbytes
      rw [List.map_cons, List.flatten_cons, List.append_assoc]
      obtain ⟨byte, tail, hstart, hbyte⟩ := hbytes.1.append ((items.map bytes).flatten ++ left)
      have hround : Misses (member >>= fun result => readUncounted member closing rounds >>=
          fun results => pure (result :: results))
          (bytes item ++ ((items.map bytes).flatten ++ left))
          (value item :: items.map value) := by
        by_cases hmiss : MissesMember value bytes member item
        · exact (hmiss _).head
        have hread := hall.1.resolve_right hmiss
        apply Misses.tail (hread _)
        apply ih hbytes.2 hall.2
        obtain ⟨other, hmem, hother⟩ := hsome
        rcases List.mem_cons.mp hmem with rfl | hmem
        · exact absurd hother hmiss
        · exact ⟨other, hmem, hother⟩
      rw [hstart] at hround ⊢
      refine Misses.bind_right (gets_need (one_le_length_cons _ _)) ?_
      refine Misses.bind_right (gets_peek _) ?_
      rw [if_neg hbyte]
      exact hround

theorem misses_members {member : UbjType → Reader α} {closing : Byte} {rounds : ℕ}
    {strong : UbjType} {all : Bytes}
    (hlayout : Layout closing items.length strong (items.map bytes).flatten all)
    (hbytes : strong = .undefined → ∀ item ∈ items, Continues closing (bytes item))
    (hall : ∀ item ∈ items, ReadsMember value bytes (member strong) item
      ∨ MissesMember value bytes (member strong) item)
    (hsome : ∃ item ∈ items, MissesMember value bytes (member strong) item) :
    Misses (readMembers member closing rounds) (all ++ left) (items.map value) := by
  cases hlayout with
  | counted hhead =>
    rw [List.append_assoc]
    refine Misses.bind_right (gets_header hhead) ?_
    exact misses_counted hall hsome
  | closed hhead =>
    have hstart : (items.map bytes).flatten ++ [closing] ++ left ≠ [] := by simp
    have hheadless : Headless ((items.map bytes).flatten ++ [closing] ++ left) := by
      intro byte hbyte
      rw [List.head?_append_of_ne_nil _ (by simp)] at hbyte
      exact hhead byte hbyte
    refine Misses.bind_right (gets_headless hstart hheadless) ?_
    rw [List.append_assoc]
    exact misses_uncounted (hbytes rfl) hall hsome

end Members

/-! ## What is written of a value -/

/-- The first byte of something that brings its type: it does not look like a header and
closes nothing. -/
def Starts (bytes : Bytes) : Prop :=
  ∃ type tail, bytes = UBJ_TYPE type :: tail ∧ type ≠ .strongType ∧ type ≠ .count

theorem Starts.continues {bytes : Bytes} (hbytes : Starts bytes) :
    Continues arrayEnd bytes ∧ Continues objectEnd bytes := by
  obtain ⟨type, tail, rfl, -, -⟩ := hbytes
  have hclosing := type_ne_closing type
  exact ⟨⟨_, tail, rfl, hclosing.1⟩, ⟨_, tail, rfl, hclosing.2⟩⟩

theorem Starts.headless {bytes : Bytes} (hbytes : Starts bytes) : Headless bytes := by
  obtain ⟨type, -, rfl, hstrong, hcount⟩ := hbytes
  intro byte hbyte
  cases hbyte
  cases type
  case strongType => exact absurd rfl hstrong
  case count => exact absurd rfl hcount
  all_goals decide

theorem Starts.append {bytes : Bytes} (hbytes : Starts bytes) (left : Bytes) :
    Starts (bytes ++ left) := by
  obtain ⟨type, tail, rfl, htype⟩ := hbytes
  exact ⟨type, tail ++ left, rfl, htype⟩

structure Written (depth : ℕ) (known : UbjType) (value : Value) (out : Bytes) : Prop where
  reads : (¬ HasLongArray value ∧ Encodes depth known value out)
    ∨ (HasLongArray value ∧ ∀ rounds ≥ out.length, ∀ left,
      Misses (readInternal rounds depth known) (out ++ left) value)
  starts : known = .undefined → Starts out
  bare : out = [] → Bare value

theorem Written.of_encodes {depth : ℕ} {known : UbjType} {value : Value} {out : Bytes}
    (hlong : ¬ HasLongArray value) (hvalue : Encodes depth known value out)
    (hknown : known ≠ .undefined) (hbare : out = [] → Bare value) : Written depth known value out :=
  ⟨.inl ⟨hlong, hvalue⟩, fun heq => absurd heq hknown, hbare⟩

theorem Written.read_or_miss {depth : ℕ} {known : UbjType} {value : Value} {out : Bytes}
    (hwritten : Written depth known value out) {rounds : ℕ} (hrounds : out.length ≤ rounds) :
    (¬ HasLongArray value ∧ ∀ left, Gets (readInternal rounds depth known) (out ++ left) value left)
      ∨ (HasLongArray value ∧ ∀ left,
        Misses (readInternal rounds depth known) (out ++ left) value) := by
  rcases hwritten.reads with ⟨hlong, hvalue⟩ | ⟨hlong, hmiss⟩
  · exact .inl ⟨hlong, hvalue.gets hrounds⟩
  exact .inr ⟨hlong, hmiss rounds hrounds⟩

theorem written_int {depth : ℕ} {type : UbjType} {value : BitVec 64}
    (hholds : Holds type value.toInt) :
    Emits (int64Write value type) (Written (depth + 1) type (.int value)) := by
  apply (emits_digits hholds).weaken
  rintro out ⟨hsize, hdecode⟩
  have hvalue : Encodes (depth + 1) type (.int (decodeInt type out)) out := .int hholds.1 hsize
  rw [hdecode] at hvalue
  apply Written.of_encodes (by rintro ⟨⟩) hvalue (isInt_defined hholds.1)
  rintro rfl
  have hpos := size_of_isInt hholds.1
  rw [← hsize] at hpos
  exact absurd hpos (by decide)

/-- How members stand in what is written: each with its type and a closing bracket, or
behind a header. -/
inductive Parts {ι : Type} (bytes : ι → Bytes) (closing : Byte) (items : List ι) :
    UbjType → Bytes → Prop where
  | plain : Parts bytes closing items .undefined ((items.map bytes).flatten ++ [closing])
  | counted {strong : UbjType} {head : Bytes} (hstrong : strong ≠ .undefined)
      (hhead : Header strong (toInt32 items.length) head) :
      Parts bytes closing items strong (head ++ (items.map bytes).flatten)

theorem emits_members {ι : Type} {bytes : ι → Bytes} {strong : UbjType} {count : ℕ}
    {closing : Byte} {members : Writer PUnit} {good : List ι → Prop}
    (hcount : ∀ items, good items → items.length = count)
    (hmembers : Emits members fun out => ∃ items, good items ∧ out = (items.map bytes).flatten) :
    Emits (writeMembers strong count closing members) fun out =>
      (∃ items, good items ∧ items.length < 2 ^ 32 ∧ Parts bytes closing items strong out)
        ∧ out.length < 2 ^ 31 := by
  apply Emits.bounded
  apply (emits_countable count).bind
  rintro _ ⟨rfl, hsmall⟩
  by_cases hstrong : strong = .undefined
  · subst hstrong
    apply hmembers.bind
    rintro _ ⟨items, hgood, rfl⟩
    apply (emits_setData _).weaken
    rintro _ rfl
    exact ⟨items, hgood, by rwa [hcount items hgood], .plain⟩
  apply (emits_header hsmall hstrong).bind
  intro head hhead
  apply hmembers.bind
  rintro _ ⟨items, hgood, rfl⟩
  rw [writeEnd, if_neg hstrong]
  apply Emits.pure
  have hlength := hcount items hgood
  rw [← hlength] at hhead hsmall
  refine ⟨items, hgood, hsmall, ?_⟩
  rw [List.append_nil]
  exact .counted hstrong hhead

section Parts

variable {ι : Type} {bytes : ι → Bytes} {closing : Byte} {items : List ι} {strong : UbjType}
  {out : Bytes}

section

variable (hparts : Parts bytes closing items strong out)

include hparts

theorem Parts.ne_nil : out ≠ [] := by
  cases hparts with
  | plain => simp
  | counted hstrong hhead =>
    cases hhead with
    | typed _ _ => exact List.cons_ne_nil _ _
    | counted _ => exact List.cons_ne_nil _ _

theorem Parts.length_le :
    (items.map bytes).flatten.length ≤ out.length := by
  cases hparts with
  | plain =>
    rw [List.length_append]
    omega
  | counted hstrong hhead =>
    rw [List.length_append]
    omega

theorem Parts.header
    (hstrong : strong ≠ .undefined) :
    ∃ head, Header strong (toInt32 items.length) head ∧ out = head ++ (items.map bytes).flatten := by
  cases hparts with
  | plain => exact absurd rfl hstrong
  | counted _ hhead => exact ⟨_, hhead, rfl⟩

/-- The number of members is read as it is. -/
theorem Parts.layout
    (hcount : items.length < 2 ^ 31)
    (hclosing : closing ≠ UBJ_TYPE .strongType ∧ closing ≠ UBJ_TYPE .count)
    (hstarts : strong = .undefined → ∀ item ∈ items, Starts (bytes item)) :
    Layout closing items.length strong (items.map bytes).flatten out := by
  cases hparts with
  | plain =>
    apply Layout.closed
    cases items with
    | nil =>
      intro byte hbyte
      cases hbyte
      exact hclosing
    | cons item items =>
      rw [List.map_cons, List.flatten_cons, List.append_assoc]
      exact ((hstarts rfl item (.head _)).append _).headless
  | counted hstrong hhead =>
    rw [toInt32_of_lt hcount] at hhead
    exact .counted hhead

end

end Parts

/-! ## Members of an array or an object -/

def Suits (known : UbjType) (value : Value) : Prop :=
  known = .undefined ∨ known = valueType value ∨ (known = .string ∧ ∃ bytes, value = .str bytes)

def WritesBelow (depth : ℕ) : Prop :=
  ∀ known value, Suits known value →
    Emits (writeInternal depth known value) (Written depth known value)

theorem written_member {depth : ℕ} (hbelow : WritesBelow depth) (hdepth : depth ≠ 0)
    {values : List Value} {value : Value} (hmem : value ∈ values) :
    Emits (writeMember (writeInternal depth) (strongType values) value)
      (Written depth (strongType values) value) := by
  rw [writeMember]
  by_cases hstrong : strongType values = .undefined
  · rw [hstrong]
    exact hbelow _ _ (.inl rfl)
  cases strongType_fits hstrong value hmem with
  | int hholds =>
    obtain ⟨-, rfl⟩ := Nat.exists_eq_succ_of_ne_zero hdepth
    rw [if_pos hholds.1]
    exact written_int hholds
  | other hother htype =>
    rw [if_neg hother]
    exact hbelow _ _ (.inr (.inl htype.symm))

theorem closing_ne_header : (arrayEnd ≠ UBJ_TYPE .strongType ∧ arrayEnd ≠ UBJ_TYPE .count)
      ∧ (objectEnd ≠ UBJ_TYPE .strongType ∧ objectEnd ≠ UBJ_TYPE .count) := by
  decide

/-- Where a member takes no bytes, an array that is not closed at once is never closed. -/
theorem readUncounted_bare {α : Type} {member : Reader α} {closing : Byte} {value : α}
    {start : Bytes} (hmember : Gets member start value start)
    (hstart : start.head? ≠ some closing) (rounds : ℕ) :
    ∀ state, state.rest = start → ∀ result final,
      readUncounted member closing rounds state ≠ .ok result final := by
  induction rounds with
  | zero =>
    intro state _ result final hrun
    cases hrun
  | succ rounds ih =>
    intro state hrest result final hrun
    cases start with
    | nil =>
      have hshort : (state.rest.length : ℤ) < 1 := by
        rw [hrest]
        decide
      rw [readUncounted, bind_apply, need_short hshort] at hrun
      cases hrun
    | cons byte tail =>
      have hbyte : byte ≠ closing := fun heq => hstart (congrArg some heq)
      obtain ⟨first, hfirst, hrest⟩ := gets_need (one_le_length_cons byte tail) state hrest
      obtain ⟨second, hsecond, hrest⟩ := gets_peek byte first hrest
      obtain ⟨third, hthird, hrest⟩ := hmember second hrest
      rw [readUncounted, bind_apply, hfirst] at hrun
      dsimp only at hrun
      rw [bind_apply, hsecond] at hrun
      dsimp only at hrun
      rw [if_neg hbyte, bind_apply, hthird] at hrun
      obtain ⟨results, last, hresults, -⟩ := bind_eq_ok.mp hrun
      exact ih third hrest results last hresults

/-- The members that a loop up to the closing bracket finds when each takes no bytes. -/
theorem misses_bare {α : Type} {member : Reader α} {closing : Byte} {value : α}
    {start : Bytes} {values : List α} (rounds : ℕ) (hmember : Gets member start value start)
    (hvalues : values ≠ []) : Misses (readUncounted member closing rounds) start values := by
  intro state hstate result final hrun
  by_cases hstart : start.head? = some closing
  · cases rounds with
    | zero => cases hrun
    | succ rounds =>
      cases start with
      | nil => cases hstart
      | cons byte tail =>
        cases hstart
        have hclosed : Gets (readUncounted member closing (rounds + 1)) (closing :: tail) []
            tail := @gets_uncounted _ tail α id (fun _ => []) member closing (rounds + 1) []
              (Nat.succ_pos _) (fun _ hmem => (List.not_mem_nil hmem).elim)
              (fun _ hmem => (List.not_mem_nil hmem).elim)
        obtain ⟨next, hnext, -⟩ := hclosed state hstate
        rw [hnext] at hrun
        cases hrun
        exact hvalues.symm
  exact absurd hrun (readUncounted_bare hmember hstart rounds state hstate result final)

theorem gets_bare {rounds depth : ℕ} {value : Value} (hbare : Bare value) (hdepth : depth ≠ 0)
    (start : Bytes) : Gets (readInternal rounds depth (valueType value)) start value start := by
  obtain ⟨depth, rfl⟩ := Nat.exists_eq_succ_of_ne_zero hdepth
  have hencodes : Encodes (depth + 1) (valueType value) value [] := by
    rcases hbare with rfl | ⟨flag, rfl⟩
    · exact .null (.inl rfl)
    cases flag
    · exact .boolFalse
    · exact .boolTrue
  exact hencodes.gets (Nat.zero_le _) start

/-- Values of the same type that take no bytes are the same. -/
theorem eq_of_bare {value other : Value} (hbare : Bare value)
    (htype : valueType other = valueType value) : other = value := by
  have hother : ∀ {type}, valueType other = type → ¬ UBJ_ISINT type → type ≠ .string →
      type ≠ .char → type ≠ .float64 → type ≠ .array → type ≠ .object →
      other = .null ∨ ∃ flag, other = .bool flag := by
    rintro _ rfl hint hstring hchar hreal harray hobject
    cases other with
    | null => exact .inl rfl
    | bool flag => exact .inr ⟨flag, rfl⟩
    | int number => exact absurd (bestIntType_holds number).1 hint
    | real bits => exact absurd rfl hreal
    | str bytes =>
      exfalso
      revert hstring hchar
      unfold valueType
      split
      all_goals try split
      all_goals simp_all
    | arr values => exact absurd rfl harray
    | obj members => exact absurd rfl hobject
  have hbareOther : Bare other := by
    apply hother htype
    all_goals
      rcases hbare with rfl | ⟨flag, rfl⟩
      · decide
      cases flag
      all_goals decide
  rcases hbare with rfl | ⟨flag, rfl⟩
  · rcases hbareOther with rfl | ⟨flag, rfl⟩
    · rfl
    cases flag
    all_goals cases htype
  rcases hbareOther with rfl | ⟨flag', rfl⟩
  · cases flag
    all_goals cases htype
  cases flag
  all_goals cases flag'
  all_goals first | rfl | cases htype

/-! ## Arrays and objects -/

theorem not_longArray_of_short {values : List Value} (hcount : values.length < 2 ^ 31)
    (hvalues : ∀ value ∈ values, ¬ HasLongArray value) : ¬ HasLongArray (.arr values) := by
  intro hlong
  cases hlong with
  | here hitem hnumber =>
    rw [List.length_replicate] at hcount
    exact absurd hnumber (Nat.not_le.mpr hcount)
  | item hmem hvalue => exact hvalues _ hmem hvalue

theorem misses_array {rounds depth : ℕ} {start : Bytes} {values : List Value} (hdepth : depth ≠ 0)
    (hmiss : Misses (readMembers (readInternal rounds depth) arrayEnd rounds) start values) :
    Misses (readInternal rounds (depth + 1) .array) start (.arr values) := by
  refine Misses.bind_right (gets_known (by decide)) ?_
  change Misses (if depth = 0 then _ else _) _ _
  rw [if_neg hdepth]
  exact .bind_pure (fun _ heq => Value.arr.inj heq) hmiss

theorem misses_object {rounds depth : ℕ} {start : Bytes} {members : List (Bytes × Value)}
    (hdepth : depth ≠ 0)
    (hmiss : Misses (readMembers (readPair (readInternal rounds depth)) objectEnd rounds) start
      members) : Misses (readInternal rounds (depth + 1) .object) start (.obj members) := by
  refine Misses.bind_right (gets_known (by decide)) ?_
  change Misses (if depth = 0 then _ else _) _ _
  rw [if_neg hdepth]
  exact .bind_pure (fun _ heq => Value.obj.inj heq) hmiss

/-- An array of fewer than 2^31 members. -/
theorem written_short_array {depth : ℕ} {strong : UbjType} {items : List (Value × Bytes)}
    {out : Bytes} (hdepth : depth ≠ 0) (hcount : items.length < 2 ^ 31)
    (hitems : ∀ item ∈ items, Written depth strong item.1 item.2)
    (hparts : Parts Prod.snd arrayEnd items strong out) :
    Written (depth + 1) .array (.arr (items.map Prod.fst)) out := by
  have hstarts : strong = .undefined → ∀ item ∈ items, Starts item.2 :=
    fun heq item hmem => (hitems item hmem).starts heq
  have hlayout := hparts.layout hcount closing_ne_header.1 hstarts
  refine ⟨?_, UbjType.noConfusion, fun hnil => absurd hnil hparts.ne_nil⟩
  by_cases hlong : ∃ item ∈ items, HasLongArray item.1
  · obtain ⟨item, hmem, hvalue⟩ := hlong
    refine .inr ⟨.item (List.mem_map_of_mem hmem) hvalue, ?_⟩
    intro rounds hrounds left
    have hrounds : ∀ item ∈ items, item.2.length ≤ rounds := by
      intro item hmem
      have hlength := @length_le_flatten_of_mem _ Prod.snd _ _ hmem
      exact Nat.le_trans (Nat.le_trans hlength hparts.length_le) hrounds
    have hread := fun item hmem => (hitems item hmem).read_or_miss (hrounds item hmem)
    apply misses_array hdepth
    apply misses_members hlayout
    · exact fun heq item hmem => (hstarts heq item hmem).continues.1
    · intro item hmem
      exact (hread item hmem).imp And.right And.right
    refine ⟨item, hmem, ?_⟩
    rcases hread item hmem with ⟨hno, -⟩ | ⟨-, hmiss⟩
    · exact absurd hvalue hno
    · exact hmiss
  push Not at hlong
  have hvalues : ∀ value ∈ items.map Prod.fst, ¬ HasLongArray value := List.forall_mem_map.mpr hlong
  refine .inl ⟨not_longArray_of_short (by rwa [List.length_map]) hvalues, ?_⟩
  apply Encodes.array hdepth _ hlayout
  intro item hmem
  rcases (hitems item hmem).reads with ⟨-, hvalue⟩ | ⟨hyes, -⟩
  · exact hvalue
  exact absurd hyes (hlong item hmem)

theorem exists_nil_of_long {ι : Type} {bytes : ι → Bytes} {items : List ι}
    (hcount : 2 ^ 31 ≤ items.length) (hsize : (items.map bytes).flatten.length < 2 ^ 31) :
    ∃ item ∈ items, bytes item = [] := by
  by_contra hnone
  push Not at hnone
  have hlength := length_le_flatten hnone
  omega

/-- An array of 2^31 or more members, which then take no bytes. -/
theorem written_long_array {depth : ℕ} {values : List Value} {items : List (Value × Bytes)}
    {out : Bytes} (hdepth : depth ≠ 0) (hcount : 2 ^ 31 ≤ items.length)
    (hsmall : items.length < 2 ^ 32) (hout : out.length < 2 ^ 31)
    (hvalues : items.map Prod.fst = values)
    (hitems : ∀ item ∈ items, Written depth (strongType values) item.1 item.2)
    (hparts : Parts Prod.snd arrayEnd items (strongType values) out) :
    Written (depth + 1) .array (.arr values) out := by
  obtain ⟨⟨value, bytes⟩, hmem, hnil⟩ := exists_nil_of_long hcount
    (Nat.lt_of_le_of_lt hparts.length_le hout)
  have hstrong : strongType values ≠ .undefined := by
    intro heq
    exact ((hitems _ hmem).starts heq).continues.1.ne_nil hnil
  have hbare : Bare value := (hitems _ hmem).bare hnil
  have hfits := strongType_fits hstrong
  have hmemValue : value ∈ values := by
    rw [← hvalues]
    exact List.mem_map_of_mem hmem
  have hshared : strongType values = valueType value ∧ ¬ UBJ_ISINT (strongType values) := by
    cases hfits value hmemValue with
    | int hholds =>
      rcases hbare with hnull | ⟨flag, hbool⟩
      · cases hnull
      · cases hbool
    | other hother htype => exact ⟨htype.symm, hother⟩
  -- All members have the type of this one, so all are the same.
  have hsame : ∀ other ∈ values, other = value := by
    intro other hmemOther
    apply eq_of_bare hbare
    cases hfits other hmemOther with
    | int hholds => exact absurd hholds.1 hshared.2
    | other hother htype => exact htype.trans hshared.1
  have hlength : values.length = items.length := by
    rw [← hvalues, List.length_map]
  have hreplicate : values = List.replicate values.length value :=
    List.eq_replicate_length.mpr hsame
  refine ⟨.inr ⟨?_, ?_⟩, UbjType.noConfusion, fun hnil => absurd hnil hparts.ne_nil⟩
  · rw [hreplicate]
    exact .here hbare (by omega)
  intro rounds _ left
  apply misses_array hdepth
  obtain ⟨head, hhead, rfl⟩ := hparts.header hstrong
  have hnegative : ¬ 0 ≤ toInt32 items.length := Int.not_le.mpr (toInt32_neg hcount hsmall)
  rw [List.append_assoc]
  refine Misses.bind_right (gets_header hhead) ?_
  rw [readBehind, if_neg hnegative, hshared.1]
  apply misses_bare rounds (gets_bare hbare hdepth _)
  intro hempty
  rw [hempty, List.length_nil] at hlength
  omega

theorem written_array {depth : ℕ} (hbelow : WritesBelow depth) (hdepth : depth ≠ 0)
    (values : List Value) :
    Emits (writeArray (writeInternal depth) values) (Written (depth + 1) .array (.arr values)) := by
  have hmembers : Emits (values.forM (writeMember (writeInternal depth) (strongType values)))
      fun out => ∃ items : List (Value × Bytes), (items.map Prod.fst = values
        ∧ ∀ item ∈ items, Written depth (strongType values) item.1 item.2)
        ∧ out = (items.map Prod.snd).flatten := by
    refine Emits.weaken (@emits_forM _ (Value × Bytes) Prod.fst Prod.snd
      (fun item => Written depth (strongType values) item.1 item.2) _ values ?_) ?_
    · intro value hmem
      apply (written_member hbelow hdepth hmem).weaken
      intro out hwritten
      exact ⟨(value, out), rfl, hwritten, rfl⟩
    rintro out ⟨items, hvalues, hitems, hout⟩
    exact ⟨items, ⟨hvalues, hitems⟩, hout⟩
  apply (@emits_members _ _ _ values.length arrayEnd _ _ _ hmembers).weaken
  · rintro out ⟨⟨items, ⟨hvalues, hitems⟩, hsmall, hparts⟩, hout⟩
    by_cases hcount : items.length < 2 ^ 31
    · have hshort := written_short_array hdepth hcount hitems hparts
      rwa [hvalues] at hshort
    · exact written_long_array hdepth (Nat.le_of_not_lt hcount) hsmall hout hvalues hitems hparts
  rintro items ⟨hvalues, -⟩
  rw [← hvalues, List.length_map]

def WrittenPair (depth : ℕ) (strong : UbjType) (member : Member) : Prop :=
  Encodes depth .string (.str member.name) member.nameBytes
    ∧ Written depth strong member.value member.valueBytes

theorem misses_pair {read : UbjType → Reader Value} {strong : UbjType} {member : Member}
    {left : Bytes}
    (hname : ∀ left, Gets (read .string) (member.nameBytes ++ left) (.str member.name) left)
    (hvalue : Misses (read strong) (member.valueBytes ++ left) member.value) :
    Misses (readPair read strong) (member.bytes ++ left) member.pair := by
  rw [Member.bytes, List.append_assoc]
  refine Misses.bind_right (hname _) ?_
  exact .bind_pure (fun _ heq => (Prod.mk.inj heq).2) hvalue

/-- An object. -/
theorem written_members {depth : ℕ} {strong : UbjType} {members : List Member} {out : Bytes}
    (hdepth : depth ≠ 0) (hout : out.length < 2 ^ 31)
    (hmembers : ∀ member ∈ members, WrittenPair depth strong member)
    (hparts : Parts Member.bytes objectEnd members strong out) :
    Written (depth + 1) .object (.obj (members.map Member.pair)) out := by
  have hstarts : ∀ member ∈ members, Starts member.bytes := by
    intro member hmem
    obtain ⟨name, field, -, ⟨_, hfield, -⟩, hbytes⟩ := (hmembers member hmem).1.string_cons
    cases hfield with
    | digits hint hsize =>
      rw [Member.bytes, hbytes]
      refine Starts.append (Starts.append ⟨_, _, rfl, ?_, ?_⟩ name) _
      · rintro rfl
        cases hint
      rintro rfl
      cases hint
  have hcount : members.length < 2 ^ 31 := by
    by_contra hlong
    obtain ⟨member, hmem, hnil⟩ := exists_nil_of_long (Nat.le_of_not_lt hlong)
      (Nat.lt_of_le_of_lt hparts.length_le hout)
    exact (hstarts member hmem).continues.1.ne_nil hnil
  have hlayout := hparts.layout hcount closing_ne_header.2 fun _ => hstarts
  refine ⟨?_, UbjType.noConfusion, fun hnil => absurd hnil hparts.ne_nil⟩
  by_cases hlong : ∃ member ∈ members, HasLongArray member.value
  · obtain ⟨member, hmem, hvalue⟩ := hlong
    have hlongMember : HasLongArray member.pair.2 := hvalue
    refine .inr ⟨.member (List.mem_map_of_mem hmem) hlongMember, ?_⟩
    intro rounds hrounds left
    have hread : ∀ member ∈ members, (¬ HasLongArray member.value
        ∧ ReadsMember Member.pair Member.bytes (readPair (readInternal rounds depth) strong) member)
        ∨ (HasLongArray member.value
          ∧ MissesMember Member.pair Member.bytes (readPair (readInternal rounds depth) strong)
            member) := by
      intro member hmem
      have hlength := @length_le_flatten_of_mem _ Member.bytes _ _ hmem
      have hbytes := Nat.le_trans (Nat.le_trans hlength hparts.length_le) hrounds
      rw [Member.bytes, List.length_append] at hbytes
      obtain ⟨hname, hwritten⟩ := hmembers member hmem
      have hgets := @Encodes.gets rounds _ _ _ _ hname (by omega)
      rcases @Written.read_or_miss _ _ _ _ hwritten rounds (by omega) with
        ⟨hno, hvalue⟩ | ⟨hyes, hmiss⟩
      · exact .inl ⟨hno, fun left => gets_pair hgets hvalue⟩
      · exact .inr ⟨hyes, fun left => misses_pair hgets (hmiss left)⟩
    apply misses_object hdepth
    apply misses_members hlayout
    · exact fun _ member hmem => (hstarts member hmem).continues.2
    · intro member hmem
      exact (hread member hmem).imp And.right And.right
    refine ⟨member, hmem, ?_⟩
    rcases hread member hmem with ⟨hno, -⟩ | ⟨-, hmiss⟩
    · exact absurd hvalue hno
    · exact hmiss
  push Not at hlong
  refine .inl ⟨?_, ?_⟩
  · intro hobject
    cases hobject with
    | member hmem hvalue =>
      obtain ⟨member, hmember, rfl⟩ := List.mem_map.mp hmem
      exact hlong member hmember hvalue
  apply Encodes.object hdepth (fun member hmem => (hmembers member hmem).1) _ hlayout
  intro member hmem
  rcases (hmembers member hmem).2.reads with ⟨-, hvalue⟩ | ⟨hyes, -⟩
  · exact hvalue
  exact absurd hyes (hlong member hmem)

/-- The object is read back unless it has a long array. -/
theorem written_object {depth : ℕ} (hbelow : WritesBelow depth) (hdepth : depth ≠ 0)
    (pairs : List (Bytes × Value)) :
    Emits (writeObject (writeInternal depth) pairs) (Written (depth + 1) .object (.obj pairs)) := by
  have hmembers : Emits (pairs.forM fun pair => do
        writeInternal depth .string (.str pair.1)
        writeMember (writeInternal depth) (strongType (pairs.map Prod.snd)) pair.2)
      fun out => ∃ members : List Member, (members.map Member.pair = pairs
        ∧ ∀ member ∈ members, WrittenPair depth (strongType (pairs.map Prod.snd)) member)
        ∧ out = (members.map Member.bytes).flatten := by
    refine Emits.weaken (@emits_forM _ Member Member.pair Member.bytes
      (WrittenPair depth (strongType (pairs.map Prod.snd))) _ pairs ?_) ?_
    · intro pair hmem
      apply (hbelow .string (.str pair.1) (.inr (.inr ⟨rfl, pair.1, rfl⟩))).bind
      intro nameBytes hname
      apply (written_member hbelow hdepth (List.mem_map_of_mem hmem)).weaken
      intro valueBytes hvalue
      refine ⟨⟨pair.1, nameBytes, pair.2, valueBytes⟩, rfl, ⟨?_, hvalue⟩, rfl⟩
      rcases hname.reads with ⟨-, hencodes⟩ | ⟨hlong, -⟩
      · exact hencodes
      · cases hlong
    rintro out ⟨members, hpairs, hmembers, hout⟩
    exact ⟨members, ⟨hpairs, hmembers⟩, hout⟩
  apply (@emits_members _ _ _ pairs.length objectEnd _ _ _ hmembers).weaken
  · rintro out ⟨⟨members, ⟨hpairs, hmembers⟩, -, hparts⟩, hout⟩
    have hwritten := written_members hdepth hout hmembers hparts
    rwa [hpairs] at hwritten
  rintro members ⟨hpairs, -⟩
  rw [← hpairs, List.length_map]

/-! ## Values -/

theorem written_string {depth : ℕ} (bytes : Bytes) :
    Emits (int64Write (BitVec.ofNat 64 bytes.length) .undefined >>= fun _ => setData bytes)
      (Written (depth + 1) .string (.str bytes)) := by
  intro script final hrun
  obtain ⟨⟨⟩, middle, hfirst, hsecond⟩ := bind_eq_ok.mp hrun
  obtain ⟨out, rfl, hout, hsize⟩ := emits_setData bytes middle final hsecond
  subst out
  have hlength : bytes.length < 2 ^ 31 := by
    by_cases hnil : bytes = []
    · rw [hnil]
      decide
    have hall := hsize hnil
    rw [List.length_append] at hall
    omega
  obtain ⟨field, rfl, hfield, hmiddle⟩ := emits_length (by omega) script middle hfirst
  rw [toInt32_of_lt hlength] at hfield
  have hcontinues : field ≠ [] := hfield.continues.ne_nil
  refine ⟨field ++ bytes, List.append_assoc _ _ _, ?_, ?_⟩
  · apply Written.of_encodes (by rintro ⟨⟩) (.string (.inl rfl) hfield) UbjType.noConfusion
    intro hnil
    exact absurd (List.append_eq_nil_iff.mp hnil).1 hcontinues
  intro _
  by_cases hnil : bytes = []
  · rw [hnil, List.append_nil]
    exact hmiddle hcontinues
  exact hsize hnil

theorem valueType_str (bytes : Bytes) : valueType (.str bytes) = .string
      ∨ ∃ byte, bytes = [byte] ∧ valueType (.str bytes) = .char := by
  match bytes with
  | [] => exact .inl rfl
  | [byte] =>
    by_cases hsign : byte.msb
    · exact .inl (if_pos hsign)
    · exact .inr ⟨byte, rfl, if_neg hsign⟩
  | _ :: _ :: _ => exact .inl rfl

theorem written_value {depth : ℕ} (hbelow : WritesBelow depth) {type : UbjType} {value : Value}
    (hsuits : Suits type value) (hdefined : type ≠ .undefined) :
    Emits (writeValue (writeInternal depth) depth value type) (Written (depth + 1) type value) := by
  rcases hsuits with rfl | rfl | ⟨rfl, bytes, rfl⟩
  · exact absurd rfl hdefined
  · cases value with
    | null => exact .pure (.of_encodes (by rintro ⟨⟩) (.null (.inl rfl)) (by decide) fun _ => .inl rfl)
    | bool flag =>
      cases flag
      · exact .pure (.of_encodes (by rintro ⟨⟩) .boolFalse (by decide) fun _ => .inr ⟨_, rfl⟩)
      · exact .pure (.of_encodes (by rintro ⟨⟩) .boolTrue (by decide) fun _ => .inr ⟨_, rfl⟩)
    | int number =>
      have hholds := bestIntType_holds number
      change Emits (if UBJ_ISINT (bestIntType number.toInt) then _ else _) _
      rw [if_pos hholds.1]
      exact written_int hholds
    | real bits =>
      apply (emits_setData _).weaken
      rintro out rfl
      have hvalue : Encodes (depth + 1) .float64
          (.real (BitVec.ofNat 64 (getBE (putBE bits.toNat 8)))) (putBE bits.toNat 8) :=
        .float64 (length_putBE _ _)
      rw [getBE_putBE bits.isLt, BitVec.ofNat_toNat] at hvalue
      apply Written.of_encodes (by rintro ⟨⟩) hvalue UbjType.noConfusion
      intro hnil
      have hlength := length_putBE bits.toNat 8
      rw [hnil] at hlength
      exact absurd hlength (by decide)
    | str bytes =>
      rcases valueType_str bytes with hstring | ⟨byte, rfl, hchar⟩
      · rw [hstring]
        exact written_string bytes
      rw [hchar]
      apply (emits_setData _).weaken
      rintro out rfl
      exact .of_encodes (by rintro ⟨⟩) .char UbjType.noConfusion (by rintro ⟨⟩)
    | arr values =>
      change Emits (if depth = 0 then _ else _) _
      split
      · exact .throw _
      next hdepth => exact written_array hbelow hdepth values
    | obj members =>
      change Emits (if depth = 0 then _ else _) _
      split
      · exact .throw _
      next hdepth => exact written_object hbelow hdepth members
  · exact written_string bytes

theorem valueType_ne_header (value : Value) :
    valueType value ≠ .strongType ∧ valueType value ≠ .count := by
  cases value with
  | bool flag =>
    cases flag
    all_goals decide
  | int number =>
    have hint := (bestIntType_holds number).1
    constructor
    · intro heq
      rw [show bestIntType number.toInt = .strongType from heq] at hint
      cases hint
    intro heq
    rw [show bestIntType number.toInt = .count from heq] at hint
    cases hint
  | str bytes =>
    rcases valueType_str bytes with hstring | ⟨byte, -, hchar⟩
    · rw [hstring]
      decide
    rw [hchar]
    decide
  | _ => exact ⟨UbjType.noConfusion, UbjType.noConfusion⟩

theorem Written.tagged {depth : ℕ} {value : Value} {out : Bytes}
    (hwritten : Written (depth + 1) (valueType value) value out) :
    Written (depth + 1) .undefined value (UBJ_TYPE (valueType value) :: out) := by
  have hdefined := valueType_ne_undefined value
  refine ⟨?_, fun _ => ⟨_, out, rfl, valueType_ne_header value⟩, fun hnil => by cases hnil⟩
  rcases hwritten.reads with ⟨hlong, hvalue⟩ | ⟨hlong, hmiss⟩
  · exact .inl ⟨hlong, .tagged hdefined hvalue⟩
  refine .inr ⟨hlong, ?_⟩
  intro rounds hrounds left
  have hbehind := hmiss rounds (Nat.le_of_succ_le hrounds) left
  rw [readInternal, typeOrRead, if_neg hdefined] at hbehind
  exact .bind_right (gets_type hdefined) hbehind

/-- What `ubjson_write_internal` writes, at every depth. -/
theorem written_internal : ∀ depth, WritesBelow depth
  | 0 => fun _ _ _ => .throw _
  | depth + 1 => by
    intro known value hsuits
    by_cases hknown : known = .undefined
    · subst hknown
      have hdefined := valueType_ne_undefined value
      have hwrite : writeInternal (depth + 1) .undefined value
          = setData [UBJ_TYPE (valueType value)] >>= fun _ =>
            writeValue (writeInternal depth) depth value (valueType value) := by
        rw [writeInternal, writeType, if_pos rfl, bind_assoc]
        rfl
      rw [hwrite]
      apply (emits_setData _).bind
      rintro _ rfl
      apply (written_value (written_internal depth) (.inr (.inl rfl)) hdefined).weaken
      exact fun out hwritten => hwritten.tagged
    rw [writeInternal, writeType, if_neg hknown]
    exact written_value (written_internal depth) hsuits hknown

/-! ## The round trip -/

/-- With enough rounds for its loops, `ubjson_read` returns the value. -/
def ReadsBack (elem : Bytes) (maxDepth : ℤ) (value : Value) : Prop :=
  ∃ bound, ∀ rounds ≥ bound, ∃ final, ubjsonRead rounds elem maxDepth = .ok value final

theorem Written.readsBack_iff {value : Value} {maxDepth : ℤ} {written : Bytes}
    (hwritten : Written (depthOf maxDepth) .undefined value written) :
    ReadsBack written maxDepth value ↔ ¬ HasLongArray value := by
  constructor
  · rintro ⟨bound, hread⟩ hlong
    rcases hwritten.reads with ⟨hno, -⟩ | ⟨-, hmiss⟩
    · exact hno hlong
    obtain ⟨last, hrun⟩ := hread (max bound written.length) (Nat.le_max_left _ _)
    have hwrong := hmiss (max bound written.length) (Nat.le_max_right _ _) []
    rw [List.append_nil] at hwrong
    exact hwrong ⟨written, []⟩ rfl value last hrun rfl
  intro hshort
  rcases hwritten.reads with ⟨-, hvalue⟩ | ⟨hlong, -⟩
  · refine ⟨written.length, fun rounds hrounds => ?_⟩
    have hread := hvalue.gets hrounds []
    rw [List.append_nil] at hread
    obtain ⟨last, hrun, -⟩ := hread ⟨written, []⟩ rfl
    exact ⟨last, hrun⟩
  exact absurd hlong hshort

/-- If `ubjson_write` succeeds, `ubjson_read` returns the value from the bytes that were
written exactly if no array in it has 2^31 or more members that take no bytes. -/
theorem ubjsonWrite_readsBack_iff {value : Value} {maxDepth : ℤ} {script final : Bytes}
    (hwrite : ubjsonWrite value maxDepth script = .ok ⟨⟩ final) :
    ∃ written, final = script ++ written
      ∧ (ReadsBack written maxDepth value ↔ ¬ HasLongArray value) := by
  obtain ⟨written, hfinal, hwritten, -⟩ :=
    written_internal (depthOf maxDepth) .undefined value (.inl rfl) script final hwrite
  exact ⟨written, hfinal, hwritten.readsBack_iff⟩

set_option maxRecDepth 4096 in
/-- An object with an array in it comes back. -/
theorem sample_readsBack :
    ReadsBack [0x7b, 0x69, 0x01, 0x61, 0x5b, 0x69, 0x01, 0x55, 0xc8, 0x69, 0xfd, 0x5d, 0x7d] 3
      (.obj [([0x61], .arr [.int 1, .int 200, .int (-3)])]) := by
  obtain ⟨written, hwritten, hiff⟩ := @ubjsonWrite_readsBack_iff
    (.obj [([0x61], .arr [.int 1, .int 200, .int (-3)])]) 3 []
    [0x7b, 0x69, 0x01, 0x61, 0x5b, 0x69, 0x01, 0x55, 0xc8, 0x69, 0xfd, 0x5d, 0x7d] rfl
  rw [hwritten, List.nil_append, hiff]
  intro hlong
  cases hlong with
  | member hmem hvalue =>
    rw [List.mem_singleton] at hmem
    subst hmem
    refine not_longArray_of_short (by decide) ?_ hvalue
    rintro value hmem hlong
    cases hlong
    all_goals simp at hmem

/-! ## An array that is not read back -/

theorem survey_nulls (count : ℕ) : survey (List.replicate count .null) ⟨.nullType, false, 0, 0⟩
      = some ⟨.nullType, false, 0, 0⟩ := by
  induction count with
  | zero => rfl
  | succ count ih => exact ih

theorem strongType_nulls {count : ℕ} (hcount : 2 ^ 31 ≤ count) :
    strongType (List.replicate count .null) = .nullType := by
  obtain ⟨count, rfl⟩ := Nat.exists_eq_succ_of_ne_zero (by omega : count ≠ 0)
  have hsurvey : survey (List.replicate (count + 1) .null) ⟨.undefined, false, 0, 0⟩
      = some ⟨.nullType, false, 0, 0⟩ := survey_nulls count
  have hsize : ∀ type, UBJ_SIZE type ≤ 8 := by
    intro type
    cases type
    all_goals decide
  have hplain : ¬ Survey.plainFits ⟨.nullType, false, 0, 0⟩ (count + 1) := by
    have htype := hsize (bestIntType (toInt32 (count + 1)))
    intro hfits
    change (0 : ℤ) + (count + 1 : ℕ) + 1 ≤ (count + 1 : ℕ) * (0 : ℤ) + UBJ_SIZE _ + 4 at hfits
    omega
  rw [strongType, hsurvey]
  dsimp only
  rw [List.length_replicate, if_neg]
  · rfl
  simp only [reduceCtorEq, false_or]
  exact hplain

theorem writeMembers_nulls (depth count : ℕ) (script : Bytes) :
    (List.replicate count Value.null).forM (writeMember (writeInternal (depth + 1)) .nullType) script
      = .ok ⟨⟩ script := by
  induction count with
  | zero => rfl
  | succ count ih => exact ih

/-- An array of 2^31 nulls is written, and is not read back. -/
theorem nulls_not_readsBack :
    ∃ final, ubjsonWrite (.arr (List.replicate (2 ^ 31) .null)) 2 [] = .ok ⟨⟩ final
      ∧ ¬ ReadsBack final 2 (.arr (List.replicate (2 ^ 31) .null)) := by
  have hwrite : ∀ count, count = 2 ^ 31 →
      ubjsonWrite (.arr (List.replicate count .null)) 2 []
        = .ok ⟨⟩ [0x5b, 0x24, 0x5a, 0x23, 0x4c, 0, 0, 0, 0, 0x80, 0, 0, 0] := by
    intro count hcount
    have harray : ubjsonWrite (.arr (List.replicate count .null)) 2 []
        = writeArray (writeInternal 1) (List.replicate count .null) [0x5b] := rfl
    have hheader : (writeHeader .nullType count) [0x5b]
        = .ok ⟨⟩ [0x5b, 0x24, 0x5a, 0x23, 0x4c, 0, 0, 0, 0, 0x80, 0, 0, 0] := by
      rw [hcount]
      rfl
    rw [harray, writeArray, strongType_nulls hcount.ge, writeMembers, List.length_replicate,
      writeCountable, if_pos (by omega), pure_bind, bind_apply, hheader]
    dsimp only
    rw [bind_apply, writeMembers_nulls]
    rfl
  refine ⟨_, hwrite _ rfl, ?_⟩
  obtain ⟨written, hfinal, hwritten, -⟩ :=
    written_internal (depthOf 2) .undefined _ (.inl rfl) _ _ (hwrite _ rfl)
  rw [hfinal, List.nil_append, Written.readsBack_iff hwritten, not_not]
  exact .here (.inl rfl) (Nat.le_refl _)

end Amberchain.Ubjson
