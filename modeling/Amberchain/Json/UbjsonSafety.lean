import Amberchain.Json.UbjsonSound
import Amberchain.Json.UbjsonComplete

/-!
# When reading is safe

`ubjson_read` is safe exactly on the inputs that come to no negative length.  On the
others it uses that length: `std::string` throws for a string, and an array of a type
that takes no bytes is read without end.
-/

namespace Amberchain.Ubjson

open Consuming Failing

variable {α : Type}

def Negative (state : ReadState) : Prop :=
  ∃ size ∈ state.lengths, size < 0

theorem Negative.not_nonnegative {state : ReadState} (hstate : Negative state) :
    ¬ Nonnegative state := by
  obtain ⟨size, hmem, hsize⟩ := hstate
  intro hall
  exact absurd (hall size hmem) (Int.not_le.mpr hsize)

theorem keeps_need (size : ℤ) : Keeps Negative (need size) := by
  apply Keeps.bind .get
  intro state
  split
  · exact .throw _
  exact .pure _

theorem keeps_peek : Keeps Negative peek := by
  apply Keeps.bind .get
  intro state
  split
  · exact .throw _
  exact .pure _

theorem keeps_advance (size : ℤ) : Keeps Negative (advance size) := by
  have hget : Triple Negative (get : Reader ReadState)
      (fun value state => value = state ∧ Negative state) Negative :=
    Triple.get fun state hstate => ⟨rfl, hstate⟩
  apply hget.bind
  intro state
  split
  · exact Triple.throw fun _ hstate => hstate.2
  split
  · exact Triple.throw fun _ hstate => hstate.2
  rintro _ ⟨rfl, hstate⟩
  exact hstate

theorem keeps_copy (size : ℤ) : Keeps Negative (copy size) := by
  apply Keeps.bind .get
  intro state
  split
  · exact .throw _
  split
  · exact .throw _
  exact .pure _

theorem keeps_fixed (size : ℤ) : Keeps Negative (readFixed size) :=
  (keeps_need size).bind fun _ => (keeps_copy size).bind fun _ =>
    (keeps_advance size).bind fun _ => .pure _

theorem keeps_type : Keeps Negative readType := by
  apply (keeps_need 1).bind
  intro _
  apply keeps_peek.bind
  intro byte
  cases UBJ_INTERNAL_TYPE byte with
  | none => exact .throw _
  | some type => exact (keeps_advance 1).bind fun _ => .pure _

theorem keeps_typeOrRead (known : UbjType) : Keeps Negative (typeOrRead known) := by
  rw [typeOrRead]
  split
  · exact keeps_type
  exact .pure _

theorem keeps_int (known : UbjType) : Keeps Negative (int64Read known) := by
  apply (keeps_typeOrRead known).bind
  intro type
  split
  · exact (keeps_fixed _).bind fun _ => .pure _
  exact .throw _

theorem keeps_length : Keeps Negative readLength := by
  apply (keeps_int .undefined).bind
  rintro value state ⟨size, hmem, hsize⟩
  exact ⟨size, List.mem_cons_of_mem _ hmem, hsize⟩

theorem keeps_sized (size : ℤ) : Keeps Negative (readSized size) := by
  apply (keeps_need size).bind
  intro _
  have hcopy : Keeps Negative (copyString size) := by
    rw [copyString]
    split
    · exact .pure _
    · exact keeps_copy size
  exact hcopy.bind fun _ => (keeps_advance size).bind fun _ => .pure _

theorem keeps_string : Keeps Negative readString :=
  keeps_length.bind keeps_sized

theorem keeps_count : Keeps Negative readCount := by
  apply keeps_peek.bind
  intro byte
  split
  · exact (keeps_advance 1).bind fun _ => keeps_length
  exact .pure _

theorem keeps_header : Keeps Negative readHeader := by
  apply (keeps_need 1).bind
  intro _
  apply keeps_peek.bind
  intro byte
  split
  · apply (keeps_advance 1).bind
    intro _
    apply keeps_type.bind
    intro strong
    apply (keeps_need 1).bind
    intro _
    apply keeps_peek.bind
    intro count
    split
    · exact .throw _
    · exact keeps_count.bind fun _ => .pure _
  exact keeps_count.bind fun _ => .pure _

theorem keeps_counted {member : Reader α} (hmember : Keeps Negative member) :
    ∀ count, Keeps Negative (readCounted member count)
  | 0 => .pure _
  | count + 1 => hmember.bind fun _ => (keeps_counted hmember count).bind fun _ => .pure _

variable {closing : Byte}

theorem keeps_uncounted {member : Reader α} (hmember : Keeps Negative member) :
    ∀ rounds, Keeps Negative (readUncounted member closing rounds)
  | 0 => .throw _
  | rounds + 1 => by
    apply (keeps_need 1).bind
    intro _
    apply keeps_peek.bind
    intro byte
    split
    · exact (keeps_advance 1).bind fun _ => .pure _
    exact hmember.bind fun _ => (keeps_uncounted hmember rounds).bind fun _ => .pure _

variable {member : UbjType → Reader α}

theorem keeps_behind {rounds : ℕ}
    (hmember : ∀ strong, Keeps Negative (member strong)) (header : UbjType × ℤ) :
    Keeps Negative (readBehind member closing rounds header) := by
  rw [readBehind]
  split
  · exact keeps_counted (hmember _) _
  exact keeps_uncounted (hmember _) _

theorem keeps_members {rounds : ℕ} (hmember : ∀ strong, Keeps Negative (member strong)) :
    Keeps Negative (readMembers member closing rounds) :=
  keeps_header.bind (keeps_behind hmember)

theorem keeps_name (value : Value) : Keeps Negative (nameOf value) := by
  cases value with
  | str bytes => exact .pure _
  | _ => exact .throw _

theorem keeps_pair {read : UbjType → Reader Value} (hread : ∀ known, Keeps Negative (read known))
    (strong : UbjType) : Keeps Negative (readPair read strong) :=
  (hread .string).bind fun value => (keeps_name value).bind fun _ =>
    (hread strong).bind fun _ => .pure _

variable {rounds depth : ℕ}

theorem keeps_value {read : UbjType → Reader Value}
    (hread : ∀ known, Keeps Negative (read known)) (type : UbjType) :
    Keeps Negative (readValue read rounds depth type) := by
  unfold readValue
  split
  · exact (keeps_int type).bind fun _ => .pure _
  split
  · exact .pure _
  · exact .pure _
  · exact (keeps_fixed _).bind fun _ => .pure _
  · exact (keeps_fixed _).bind fun _ => .pure _
  · exact (keeps_fixed _).bind fun _ => .pure _
  · exact keeps_string.bind fun _ => .pure _
  · exact keeps_string.bind fun _ => .pure _
  · split
    · exact .throw _
    · exact (keeps_members hread).bind fun _ => .pure _
  · split
    · exact .throw _
    · exact (keeps_members (keeps_pair hread)).bind fun _ => .pure _
  exact .pure _

theorem keeps_internal (rounds : ℕ) :
    ∀ depth known, Keeps Negative (readInternal rounds depth known)
  | 0, _ => .throw _
  | depth + 1, known =>
    (keeps_typeOrRead known).bind fun type => keeps_value (keeps_internal rounds depth) type

abbrev Uses (reader : Reader α) (start : Bytes) : Prop :=
  Marks ReadState.rest Negative reader start

theorem uses_length {size : ℤ} {field left : Bytes} (hlength : LengthField size field)
    (hsize : size < 0) : Uses readLength (field ++ left) := by
  obtain ⟨value, hfield, rfl⟩ := hlength
  refine Marks.bind_right (gets_int hfield) ?_
  rintro state -
  exact ⟨_, (.head _), hsize⟩

theorem uses_count {size : ℤ} {field left : Bytes} (hlength : LengthField size field)
    (hsize : size < 0) : Uses readCount (UBJ_TYPE .count :: field ++ left) := by
  refine Marks.bind_right (gets_peek _) ?_
  exact .bind_right (gets_skip _) (uses_length hlength hsize)

theorem uses_header {strong : UbjType} {size : ℤ} {head left : Bytes}
    (hhead : Header strong size head) (hsize : size < 0) : Uses readHeader (head ++ left) := by
  cases hhead with
  | typed hstrong hlength =>
    refine Marks.bind_right (gets_need (one_le_length_cons _ _)) ?_
    refine Marks.bind_right (gets_peek _) ?_
    refine Marks.bind_right (gets_skip _) ?_
    refine Marks.bind_right (gets_type hstrong) ?_
    refine Marks.bind_right (gets_need (one_le_length_cons _ _)) ?_
    refine Marks.bind_right (gets_peek _) ?_
    exact (uses_count hlength hsize).bind_left fun _ => .pure _
  | counted hlength =>
    refine Marks.bind_right (gets_need (one_le_length_cons _ _)) ?_
    refine Marks.bind_right (gets_peek _) ?_
    exact (uses_count hlength hsize).bind_left fun _ => .pure _

section Members

variable {ι : Type} {value : ι → α} {bytes : ι → Bytes} {left : Bytes} {items : List ι}

theorem uses_counted {member : Reader α} {count : ℕ} (hcount : items.length < count)
    (hmember : ∀ item ∈ items, ∀ left, Gets member (bytes item ++ left) (value item) left)
    (hkeeps : Keeps Negative member) (huses : Uses member left) :
    Uses (readCounted member count) ((items.map bytes).flatten ++ left) := by
  induction items generalizing count with
  | nil =>
    cases count with
    | zero => exact absurd hcount (Nat.not_lt_zero _)
    | succ count =>
      exact huses.bind_left fun _ => (keeps_counted hkeeps count).bind fun _ => .pure _
  | cons item items ih =>
    cases count with
    | zero => exact absurd hcount (Nat.not_lt_zero _)
    | succ count =>
      rw [List.forall_mem_cons] at hmember
      rw [List.map_cons, List.flatten_cons, List.append_assoc]
      refine Marks.bind_right (hmember.1 _) ?_
      exact (ih (Nat.lt_of_succ_lt_succ hcount) hmember.2).bind_left fun _ => .pure _

theorem uses_uncounted {member : Reader α} {rounds : ℕ}
    (hrounds : items.length < rounds) (hbytes : ∀ item ∈ items, Continues closing (bytes item))
    (hleft : Continues closing left)
    (hmember : ∀ item ∈ items, ∀ left, Gets member (bytes item ++ left) (value item) left)
    (hkeeps : Keeps Negative member) (huses : Uses member left) :
    Uses (readUncounted member closing rounds) ((items.map bytes).flatten ++ left) := by
  induction items generalizing rounds with
  | nil =>
    cases rounds with
    | zero => exact absurd hrounds (Nat.not_lt_zero _)
    | succ rounds =>
      obtain ⟨byte, tail, rfl, hbyte⟩ := hleft
      refine Marks.bind_right (gets_need (one_le_length_cons _ _)) ?_
      refine Marks.bind_right (gets_peek _) ?_
      rw [if_neg hbyte]
      exact huses.bind_left fun _ => (keeps_uncounted hkeeps rounds).bind fun _ => .pure _
  | cons item items ih =>
    cases rounds with
    | zero => exact absurd hrounds (Nat.not_lt_zero _)
    | succ rounds =>
      rw [List.forall_mem_cons] at hmember hbytes
      rw [List.map_cons, List.flatten_cons, List.append_assoc]
      obtain ⟨byte, tail, hitem, hbyte⟩ := hbytes.1
      have hread := hmember.1 ((items.map bytes).flatten ++ left)
      rw [hitem] at hread ⊢
      refine Marks.bind_right (gets_need (one_le_length_cons _ _)) ?_
      refine Marks.bind_right (gets_peek _) ?_
      rw [if_neg hbyte]
      refine Marks.bind_right hread ?_
      exact (ih (Nat.lt_of_succ_lt_succ hrounds) hbytes.2 hmember.2).bind_left fun _ => .pure _

theorem uses_members {rounds : ℕ} {strong : UbjType} {head : Bytes}
    (hrounds : (head ++ ((items.map bytes).flatten ++ left)).length ≤ rounds)
    (hopening : Opening items.length strong head ((items.map bytes).flatten ++ left))
    (hbytes : strong = .undefined → ∀ item ∈ items, Continues closing (bytes item))
    (hleft : strong = .undefined → Continues closing left) (hmember : ∀ item ∈ items, ∀ left,
      Gets (member strong) (bytes item ++ left) (value item) left)
    (hkeeps : Keeps Negative (member strong)) (huses : Uses (member strong) left) :
    Uses (readMembers member closing rounds) (head ++ ((items.map bytes).flatten ++ left)) := by
  cases hopening with
  | counted hhead hnumber =>
    refine Marks.bind_right (gets_header hhead) ?_
    rw [readBehind, if_pos (by omega)]
    exact uses_counted (by omega) hmember hkeeps huses
  | closed hhead =>
    have hcontinues := hleft rfl
    have hstart : (items.map bytes).flatten ++ left ≠ [] :=
      List.append_ne_nil_of_right_ne_nil _ hcontinues.ne_nil
    have hcount := length_le_flatten fun item hmem => (hbytes rfl item hmem).ne_nil
    have hpos := List.length_pos_iff.mpr hcontinues.ne_nil
    refine Marks.bind_right (gets_headless hstart hhead) ?_
    apply uses_uncounted _ (hbytes rfl) hcontinues hmember hkeeps huses
    rw [List.nil_append, List.length_append] at hrounds
    omega

end Members

variable {start : Bytes}

theorem MeetsNegative.depth_ne_zero {depth : ℕ} {known : UbjType}
    (hmeets : MeetsNegative depth known start) : depth ≠ 0 := by
  induction hmeets with
  | tagged _ _ ih => exact ih
  | _ => exact Nat.succ_ne_zero _

theorem MeetsNegative.continues {depth : ℕ}
    (hmeets : MeetsNegative depth .undefined start) : Continues arrayEnd start := by
  generalize hknown : UbjType.undefined = known at hmeets
  cases hmeets with
  | tagged htype hmeets => exact ⟨_, _, rfl, (type_ne_closing _).1⟩
  | string htype hlength hsize => rw [← hknown] at htype; simp at htype
  | number htype hdepth hhead hsize => rw [← hknown] at htype; simp at htype
  | _ => cases hknown

theorem MeetsNegative.name_continues {depth : ℕ}
    (hmeets : MeetsNegative depth .string start) : Continues objectEnd start := by
  generalize hknown : UbjType.string = known at hmeets
  cases hmeets with
  | string htype hlength hsize => exact hlength.continues.append _
  | number htype hdepth hhead hsize => rw [← hknown] at htype; simp at htype
  | _ => cases hknown

theorem uses_internal_known {known : UbjType} (hknown : known ≠ .undefined)
    (huses : Uses (readValue (readInternal rounds depth) rounds depth known) start) :
    Uses (readInternal rounds (depth + 1) known) start :=
  .bind_right (gets_known hknown) huses

theorem uses_array (hdepth : depth ≠ 0)
    (huses : Uses (readMembers (readInternal rounds depth) arrayEnd rounds) start) :
    Uses (readInternal rounds (depth + 1) .array) start := by
  apply uses_internal_known (by decide)
  change Uses (if depth = 0 then _ else _) _
  rw [if_neg hdepth]
  exact huses.bind_left fun _ => .pure _

theorem uses_object (hdepth : depth ≠ 0)
    (huses : Uses (readMembers (readPair (readInternal rounds depth)) objectEnd rounds) start) :
    Uses (readInternal rounds (depth + 1) .object) start := by
  apply uses_internal_known (by decide)
  change Uses (if depth = 0 then _ else _) _
  rw [if_neg hdepth]
  exact huses.bind_left fun _ => .pure _

/-- The reader of an input that comes to a negative length uses it. -/
theorem MeetsNegative.uses {known : UbjType}
    (hmeets : MeetsNegative depth known start) (hrounds : start.length ≤ rounds) :
    Uses (readInternal rounds depth known) start := by
  induction hmeets with
  | @tagged depth type left htype hmeets ih =>
    have hshorter : left.length ≤ rounds := by
      rw [List.length_cons] at hrounds
      omega
    have huses := ih hshorter
    cases depth with
    | zero => exact absurd rfl hmeets.depth_ne_zero
    | succ depth =>
      rw [readInternal, typeOrRead, if_neg htype] at huses
      exact .bind_right (gets_type htype) huses
  | @string _ _ _ field left htype hlength hsize =>
    have huses : Uses readString (field ++ left) :=
      (uses_length hlength hsize).bind_left keeps_sized
    rcases htype with rfl | rfl
    · exact uses_internal_known (by decide) (huses.bind_left fun _ => .pure _)
    · exact uses_internal_known (by decide) (huses.bind_left fun _ => .pure _)
  | @number depth _ _ _ _ _ htype hdepth hhead hsize =>
    have hread := keeps_internal rounds depth
    rcases htype with rfl | rfl
    · apply uses_array hdepth
      exact (uses_header hhead hsize).bind_left (keeps_behind hread)
    apply uses_object hdepth
    exact (uses_header hhead hsize).bind_left (keeps_behind (keeps_pair hread))
  | @item depth strong items head left hdepth hitems hopening hmeets ih =>
    apply uses_array hdepth
    apply uses_members hrounds hopening
    · rintro rfl item hmem
      exact (hitems item hmem).continues
    · rintro rfl
      exact hmeets.continues
    · intro item hmem
      apply (hitems item hmem).gets
      have hlength := @length_le_flatten_of_mem _ Prod.snd _ _ hmem
      rw [List.length_append, List.length_append] at hrounds
      omega
    · exact keeps_internal rounds depth strong
    apply ih
    rw [List.length_append, List.length_append] at hrounds
    omega
  | @name depth strong members head left hdepth hnames hvalues hopening hmeets ih =>
    apply uses_object hdepth
    apply uses_members hrounds hopening
    · rintro - member hmem
      exact (hnames member hmem).name_continues.append _
    · rintro -
      exact hmeets.name_continues
    · intro member hmem left
      have hlength := @length_le_flatten_of_mem _ Member.bytes _ _ hmem
      rw [List.length_append, List.length_append] at hrounds
      rw [Member.bytes, List.length_append] at hlength
      exact gets_pair ((hnames member hmem).gets (by omega))
        ((hvalues member hmem).gets (by omega))
    · exact keeps_pair (keeps_internal rounds depth) strong
    rw [List.length_append, List.length_append] at hrounds
    refine Marks.bind_left (ih (by omega)) fun value => ?_
    exact (keeps_name value).bind fun _ => (keeps_internal rounds depth strong).bind
      fun _ => .pure _
  | @value depth strong members head name nameBytes left hdepth hnames hvalues hopening hname
      hmeets ih =>
      apply uses_object hdepth
      apply uses_members hrounds hopening
      · rintro - member hmem
        exact (hnames member hmem).name_continues.append _
      · rintro -
        exact hname.name_continues.append left
      · intro member hmem left
        have hlength := @length_le_flatten_of_mem _ Member.bytes _ _ hmem
        rw [List.length_append, List.length_append] at hrounds
        rw [Member.bytes, List.length_append] at hlength
        exact gets_pair ((hnames member hmem).gets (by omega))
          ((hvalues member hmem).gets (by omega))
      · exact keeps_pair (keeps_internal rounds depth) strong
      rw [List.length_append, List.length_append, List.length_append] at hrounds
      refine Marks.bind_right (hname.gets (by omega) left) ?_
      exact (ih (by omega)).bind_left fun _ => .pure _

/-- `ubjson_read` is safe on an input: with enough rounds for its loops it ends, all
lengths that it used are not negative, it did not leave what was left of the input, and
it reports an error or returns a value whose bytes are a prefix of the input. -/
def ReadsSafely (elem : Bytes) (maxDepth : ℤ) : Prop :=
  ∃ bound, ∀ rounds ≥ bound, Ends ReadState.rest Nonnegative Reported elem
    (Encodes (depthOf maxDepth) .undefined) (ubjsonRead rounds elem maxDepth)

theorem nonnegative_start (elem : Bytes) : Nonnegative ⟨elem, []⟩ :=
  fun _ hmem => (List.not_mem_nil hmem).elim

/-- `ubjson_read` is safe exactly on the inputs that come to no negative length. -/
theorem readsSafely_iff (elem : Bytes) (maxDepth : ℤ) :
    ReadsSafely elem maxDepth ↔ ¬ MeetsNegative (depthOf maxDepth) .undefined elem := by
  constructor
  · rintro ⟨bound, hsafe⟩ hmeets
    have hends := hsafe (max bound elem.length) (Nat.le_max_left _ _)
    have huses := hmeets.uses (Nat.le_max_right bound elem.length) ⟨elem, []⟩ rfl
    rw [ubjsonRead] at hends
    cases hresult : readInternal (max bound elem.length) (depthOf maxDepth) .undefined
        ⟨elem, []⟩ with
    | ok value final =>
      rw [hresult] at hends huses
      exact Negative.not_nonnegative huses hends.1
    | error stop final =>
      rw [hresult] at hends huses
      exact Negative.not_nonnegative huses hends.2.1
  intro hfree
  refine ⟨elem.length + 1, fun rounds hrounds => ?_⟩
  exact reads_internal rounds _ _ elem hrounds hfree ⟨elem, []⟩ rfl (nonnegative_start elem)

/-- An array of nulls, which take no bytes, with the number of members -1, and a byte
that does not close it. -/
def endlessArray : Bytes :=
  [UBJ_TYPE .array, UBJ_TYPE .strongType, UBJ_TYPE .nullType, UBJ_TYPE .count, UBJ_TYPE .int8,
    0xff, UBJ_TYPE .nullType]

theorem readUncounted_nulls (rounds count : ℕ) (lengths : List ℤ) :
    readUncounted (readInternal rounds 1 .nullType) arrayEnd count ⟨[UBJ_TYPE .nullType], lengths⟩
      = .error .outOfRounds ⟨[UBJ_TYPE .nullType], lengths⟩ := by
  induction count with
  | zero => rfl
  | succ count ih =>
    -- A null moves the cursor nowhere, so the next round starts where this one did.
    have hround : readUncounted (readInternal rounds 1 .nullType) arrayEnd (count + 1)
        ⟨[UBJ_TYPE .nullType], lengths⟩
        = (readUncounted (readInternal rounds 1 .nullType) arrayEnd count >>=
            fun values => pure (.null :: values)) ⟨[UBJ_TYPE .nullType], lengths⟩ := rfl
    rw [hround, bind_apply, ih]

/-- No number of rounds is enough to read that array. -/
theorem ubjsonRead_endless :
    (∀ rounds, failure (ubjsonRead rounds endlessArray 2) = some .outOfRounds)
      ∧ ¬ ReadsSafely endlessArray 2 := by
  have hrun : ∀ rounds, ubjsonRead rounds endlessArray 2
      = .error .outOfRounds ⟨[UBJ_TYPE .nullType], [-1]⟩ := by
    intro rounds
    have hloop : ubjsonRead rounds endlessArray 2
        = (readUncounted (readInternal rounds 1 .nullType) arrayEnd rounds >>=
            fun values => pure (.arr values)) ⟨[UBJ_TYPE .nullType], [-1]⟩ := rfl
    rw [hloop, bind_apply, readUncounted_nulls]
  constructor
  · intro rounds
    rw [hrun]
    rfl
  rintro ⟨bound, hsafe⟩
  have hends := hsafe bound (Nat.le_refl bound)
  rw [hrun] at hends
  obtain ⟨⟨err, herr⟩, -⟩ := hends
  cases herr

end Amberchain.Ubjson
