import Amberchain.Json.UbjsonFormat

/-!
# The types that the writer chooses

Every integer is in the range of the type that is chosen for it, also when the
type is shared by all members of an array or an object, so its digits are read back.
-/

namespace Amberchain.Ubjson

@[simp]
theorem length_putBE (value size : ℕ) : (putBE value size).length = size := by
  rw [putBE, List.length_reverse, length_putLE]

theorem getBE_putBE {value size : ℕ} (hfits : value < 256 ^ size) :
    getBE (putBE value size) = value := by
  rw [getBE, putBE, List.length_reverse, List.reverse_reverse, length_putLE, getLE_putLE_all hfits]

theorem getBE_putBE_mod (value size : ℕ) : getBE (putBE value size) = value % 256 ^ size := by
  have hread := getLE_putLE_append value size []
  rw [List.append_nil] at hread
  rw [getBE, putBE, List.length_reverse, List.reverse_reverse, length_putLE, hread]

/-- The digits of a number, from the most significant one on. -/
theorem putBE_succ (value size : ℕ) :
    putBE value (size + 1) = BitVec.ofNat 8 (value / 256 ^ size) :: putBE value size := by
  induction size generalizing value with
  | zero => rw [pow_zero, Nat.div_one]; rfl
  | succ size ih =>
    have hlast : ∀ count, putBE value (count + 1)
        = putBE (value / 256) count ++ [BitVec.ofNat 8 value] := by
      intro count
      rw [putBE, putLE, List.reverse_cons, putBE]
    rw [hlast, ih, hlast size, Nat.div_div_eq_div_mul, pow_succ', List.cons_append]

/-- The range of an integer type: from the first bound on, below the second. -/
def intRange : UbjType → ℤ × ℤ
  | .int8 => (-0x80, 0x80)
  | .uint8 => (0, 0x100)
  | .int16 => (-0x8000, 0x8000)
  | .int32 => (-0x80000000, 0x80000000)
  | .int64 => (-0x8000000000000000, 0x8000000000000000)
  | _ => (0, 0)

def Holds (type : UbjType) (value : ℤ) : Prop :=
  UBJ_ISINT type ∧ (intRange type).1 ≤ value ∧ value < (intRange type).2

theorem bestIntType_holds (value : BitVec 64) : Holds (bestIntType value.toInt) value.toInt := by
  have hlow := BitVec.le_toInt value
  have hhigh := @BitVec.toInt_lt 64 value
  generalize value.toInt = number at *
  unfold bestIntType bestNegativeIntType
  repeat' split
  all_goals exact ⟨rfl, by simp only [intRange]; omega⟩

theorem msb_putBE (value size : ℕ) : (putBE value (size + 1)).head?.any BitVec.msb
      = decide (128 ≤ value / 256 ^ size % 256) := by
  rw [putBE_succ, List.head?_cons, Option.any_some, BitVec.msb_eq_decide, BitVec.toNat_ofNat]

/-- The low digits of a number as a signed number, with the top digit in units of
`unit`. -/
theorem signed_digits {unit number count : ℕ} {value : ℤ} (hunit : 0 < unit)
    (hvalue : value = number ∨ value = number - 256 * unit * count)
    (hlow : -(128 * unit : ℤ) ≤ value) (hhigh : value < 128 * unit) :
    (if 128 ≤ number / unit % 256 then -(256 * unit : ℤ) else 0)
      + (number % (256 * unit) : ℕ) = value := by
  have htop : 128 ≤ number / unit % 256 ↔ 128 * unit ≤ number % (256 * unit) := by
    rw [← Nat.le_div_iff_mul_le hunit, Nat.mul_comm 256 unit, Nat.mod_mul_right_div_self]
  have hmod : value % (256 * unit : ℕ) = (number % (256 * unit) : ℕ) := by
    rcases hvalue with rfl | rfl
    · rw [Int.natCast_mod]
    have hproduct : (number : ℤ) - 256 * unit * count = number - (256 * unit : ℕ) * count := by
      push_cast
      ring
    rw [hproduct, Int.sub_mul_emod_self_left, Int.natCast_mod]
  by_cases hsign : 0 ≤ value
  · have hself : value % (256 * unit : ℕ) = value := Int.emod_eq_of_lt hsign (by omega)
    omega
  have hself : value % (256 * unit : ℕ) = value + (256 * unit : ℕ) := by
    rw [← Int.add_emod_right, Int.emod_eq_of_lt]
    · omega
    · omega
  rw [if_pos, ← hmod, hself]
  · push_cast
    ring
  omega

theorem toInt_eq_or (value : BitVec 64) :
    value.toInt = value.toNat ∨ value.toInt = value.toNat - 2 ^ 64 := by
  have hcond := value.toInt_eq_toNat_cond
  split at hcond
  · exact .inl hcond
  exact .inr hcond

theorem decodeInt_signed {type : UbjType} {value : BitVec 64} {size : ℕ} (htype : type ≠ .uint8)
    (hsize : UBJ_SIZE type = (size + 1 : ℕ)) (hsmall : size < 8)
    (hlow : -(128 * 256 ^ size : ℤ) ≤ value.toInt) (hhigh : value.toInt < 128 * 256 ^ size) :
    decodeInt type (putBE value.toNat (UBJ_SIZE type).toNat) = value := by
  have hunit : 0 < 256 ^ size := Nat.pow_pos (by decide)
  have hmultiple : (2 ^ 64 : ℤ) = 256 * (256 ^ size : ℕ) * (256 ^ (7 - size) : ℕ) := by
    have hexponent : size + 1 + (7 - size) = 8 := by omega
    push_cast
    rw [← pow_succ', ← pow_add, hexponent]
    rfl
  have hnumber := toInt_eq_or value
  rw [hmultiple] at hnumber
  have hdigits := signed_digits hunit hnumber (by push_cast; exact hlow)
    (by push_cast; exact hhigh)
  have hdecode : decodeInt type (putBE value.toNat (UBJ_SIZE type).toNat)
      = BitVec.ofInt 64 value.toInt := by
    rw [decodeInt, hsize, Int.toNat_natCast, msb_putBE, getBE_putBE_mod, length_putBE]
    simp only [ne_eq, htype, not_false_eq_true, true_and, decide_eq_true_eq]
    rw [pow_succ', pow_succ']
    refine congrArg (BitVec.ofInt 64) (Eq.trans ?_ hdigits)
    rfl
  rw [hdecode, BitVec.ofInt_toInt]

variable {type : UbjType}

/-- The digits of a number that its type can hold are read back. -/
theorem decodeInt_putBE {value : BitVec 64} (hholds : Holds type value.toInt) :
    decodeInt type (putBE value.toNat (UBJ_SIZE type).toNat) = value := by
  obtain ⟨hint, hlow, hhigh⟩ := hholds
  cases type
  case int8 => exact @decodeInt_signed _ _ 0 (by decide) rfl (by decide) hlow hhigh
  case int16 => exact @decodeInt_signed _ _ 1 (by decide) rfl (by decide) hlow hhigh
  case int32 => exact @decodeInt_signed _ _ 3 (by decide) rfl (by decide) hlow hhigh
  case int64 => exact @decodeInt_signed _ _ 7 (by decide) rfl (by decide) hlow hhigh
  case uint8 =>
    have hnumber := toInt_eq_or value
    simp only [intRange] at hlow hhigh
    have hmod : value.toNat % 256 ^ (UBJ_SIZE .uint8).toNat = value.toNat := by
      apply Nat.mod_eq_of_lt
      have hpow : 256 ^ (UBJ_SIZE .uint8).toNat = 256 := rfl
      omega
    rw [decodeInt, getBE_putBE_mod, hmod]
    simp only [ne_eq, not_true_eq_false, false_and, if_false, zero_add]
    rw [BitVec.ofInt_natCast, BitVec.ofNat_toNat, BitVec.setWidth_eq]
  all_goals cases hint

theorem valueType_ne_undefined (value : Value) : valueType value ≠ .undefined := by
  cases value with
  | bool flag =>
    cases flag
    all_goals decide
  | int number =>
    intro heq
    have hint := (bestIntType_holds number).1
    rw [show bestIntType number.toInt = .undefined from heq] at hint
    cases hint
  | str bytes =>
    unfold valueType
    split
    all_goals try split
    all_goals simp_all
  | _ => exact UbjType.noConfusion

/-- Only integers have integer types. -/
theorem exists_int_of_isInt {value : Value} (hint : UBJ_ISINT (valueType value)) :
    ∃ number, value = .int number := by
  cases value with
  | int number => exact ⟨number, rfl⟩
  | bool flag =>
    cases flag
    all_goals cases hint
  | str bytes =>
    revert hint
    unfold valueType
    split
    all_goals try split
    all_goals simp_all [UBJ_ISINT]
  | _ => cases hint

/-- What a survey knows of a member that it has seen: it is an integer, for which a type
that is not below its own was found, or the type that was found is its own. -/
inductive Seen (found : Survey) : Value → Prop where
  | int {number : BitVec 64} (hint : UBJ_ISINT found.last)
      (hbelow : (bestIntType number.toInt).number ≤ found.last.number)
      (hflag : isNotUint8 number.toInt → found.notUint8) : Seen found (.int number)
  | other {value : Value} (hother : ¬ UBJ_ISINT found.last) (htype : valueType value = found.last) :
      Seen found value

/-- What can come of the types of two members. -/
theorem mergeType_eq_some {last type merged : UbjType} (hmerge : mergeType last type = some merged) :
    ((last = .undefined ∨ type = last) ∧ merged = type)
      ∨ (UBJ_ISINT last ∧ UBJ_ISINT type ∧ UBJ_ISINT merged ∧ last.number ≤ merged.number
        ∧ type.number ≤ merged.number) := by
  unfold mergeType at hmerge
  split at hmerge
  next hsame => exact .inl ⟨hsame, (Option.some.inj hmerge).symm⟩
  next =>
    split at hmerge
    next hints =>
      split at hmerge
      next hless =>
        cases hmerge
        exact .inr ⟨hints.1, hints.2, hints.1, Nat.le_refl _, Nat.le_of_lt hless⟩
      next hless =>
        cases hmerge
        exact .inr ⟨hints.1, hints.2, hints.2, Nat.le_of_not_lt hless, Nat.le_refl _⟩
    next => cases hmerge

def Survey.next (found : Survey) (value : Value) (type : UbjType) : Survey :=
  { found.count value with last := type }

theorem Survey.notUint8_next {found : Survey} {value : Value}
    (hflag : found.notUint8) : (found.next value type).notUint8 := by
  cases value with
  | int number => exact Bool.or_eq_true_iff.mpr (.inl hflag)
  | _ => exact hflag

/-- A member that was seen stays seen. -/
theorem Seen.next {found : Survey} {before value : Value} {type : UbjType}
    (hseen : Seen found before) (hmerge : mergeType found.last (valueType value) = some type) :
    Seen (found.next value type) before := by
  rcases mergeType_eq_some hmerge with ⟨hsame, rfl⟩ | ⟨hlast, -, hmerged, hless, -⟩
  · have heq : valueType value = found.last := by
      rcases hsame with hundefined | heq
      · cases hseen with
        | int hint hbelow hflag =>
          rw [hundefined] at hint
          cases hint
        | other hother htype => exact absurd (htype.trans hundefined) (valueType_ne_undefined _)
      · exact heq
    cases hseen with
    | int hint hbelow hflag =>
      exact .int (heq ▸ hint) (heq ▸ hbelow) fun hnot => Survey.notUint8_next (hflag hnot)
    | other hother htype => exact .other (heq ▸ hother) (htype.trans heq.symm)
  cases hseen with
  | int hint hbelow hflag =>
    exact .int hmerged (Nat.le_trans hbelow hless) fun hnot =>
      Survey.notUint8_next (hflag hnot)
  | other hother htype => exact absurd hlast hother

theorem seen_next {found : Survey} {value : Value}
    (hmerge : mergeType found.last (valueType value) = some type) :
    Seen (found.next value type) value := by
  by_cases hint : UBJ_ISINT (valueType value)
  · obtain ⟨number, rfl⟩ := exists_int_of_isInt hint
    have hflag : isNotUint8 number.toInt → (found.next (.int number) type).notUint8 :=
      fun hnot => Bool.or_eq_true_iff.mpr (.inr hnot)
    rcases mergeType_eq_some hmerge with ⟨-, rfl⟩ | ⟨-, -, hmerged, -, hless⟩
    · exact .int hint (Nat.le_refl _) hflag
    · exact .int hmerged hless hflag
  rcases mergeType_eq_some hmerge with ⟨-, rfl⟩ | ⟨-, hvalue, -, -, -⟩
  · exact .other hint rfl
  exact absurd hvalue hint

theorem survey_seen {values : List Value} {found final : Survey}
    (hsurvey : survey values found = some final) :
    (∀ value, Seen found value → Seen final value) ∧ ∀ value ∈ values, Seen final value := by
  induction values generalizing found with
  | nil =>
    cases hsurvey
    exact ⟨fun _ hseen => hseen, fun _ hmem => (List.not_mem_nil hmem).elim⟩
  | cons value values ih =>
    rw [survey] at hsurvey
    split at hsurvey
    · cases hsurvey
    next type hmerge =>
      obtain ⟨hkeeps, hall⟩ := @ih (found.next value type) hsurvey
      refine ⟨fun before hseen => hkeeps before (hseen.next hmerge), ?_⟩
      exact List.forall_mem_cons.mpr ⟨hkeeps value (seen_next hmerge), hall⟩

/-- A member can be written without its type under the type that all members share. -/
inductive Fits (type : UbjType) : Value → Prop where
  | int {number : BitVec 64} (hholds : Holds type number.toInt) : Fits type (.int number)
  | other {value : Value} (hother : ¬ UBJ_ISINT type) (htype : valueType value = type) :
      Fits type value

theorem intRange_subset (best type : UbjType) (hbest : UBJ_ISINT best) (hint : UBJ_ISINT type)
    (htype : type ≠ .uint8) (hbelow : best.number ≤ type.number) :
    (intRange type).1 ≤ (intRange best).1 ∧ (intRange best).2 ≤ (intRange type).2 := by
  cases best
  all_goals try cases hbest
  all_goals cases type
  all_goals try cases hint
  all_goals revert htype hbelow; decide

theorem holds_of_number_le {number : BitVec 64} (hint : UBJ_ISINT type) (htype : type ≠ .uint8)
    (hbelow : (bestIntType number.toInt).number ≤ type.number) : Holds type number.toInt := by
  obtain ⟨hbest, hlow, hhigh⟩ := bestIntType_holds number
  obtain ⟨hfirst, hlast⟩ := intRange_subset _ type hbest hint htype hbelow
  exact ⟨hint, by omega, by omega⟩

theorem uint8_of_not {number : ℤ} (hnot : ¬ isNotUint8 number) : Holds .uint8 number := by
  rw [isNotUint8, Bool.or_eq_true_iff, decide_eq_true_eq, decide_eq_true_eq] at hnot
  refine ⟨rfl, ?_, ?_⟩
  · simp only [intRange]
    omega
  simp only [intRange]
  omega

/-- What was seen fits the type that is shared. -/
theorem Seen.fits {found : Survey} {value : Value} (hseen : Seen found value) :
    Fits found.shared value := by
  unfold Survey.shared
  split
  next hwiden =>
    cases hseen with
    | int hint hbelow hflag =>
      rw [hwiden.1] at hbelow
      exact .int (holds_of_number_le rfl (by decide) (Nat.le_trans hbelow (by decide)))
    | other hother htype =>
      rw [hwiden.1] at hother
      exact absurd rfl hother
  next hwiden =>
    cases hseen with
    | int hint hbelow hflag =>
      apply Fits.int
      by_cases htype : found.last = .uint8
      · rw [htype]
        apply uint8_of_not
        intro hnot
        exact hwiden ⟨htype, hflag hnot⟩
      · exact holds_of_number_le hint htype hbelow
    | other hother htype => exact .other hother htype

theorem strongType_fits {values : List Value} (hstrong : strongType values ≠ .undefined) :
    ∀ value ∈ values, Fits (strongType values) value := by
  unfold strongType at hstrong ⊢
  cases hsurvey : survey values ⟨.undefined, false, 0, 0⟩ with
  | none =>
    rw [hsurvey] at hstrong
    exact absurd rfl hstrong
  | some found =>
    rw [hsurvey] at hstrong
    dsimp only at hstrong ⊢
    split
    next hplain =>
      rw [if_pos hplain] at hstrong
      exact absurd rfl hstrong
    next hplain => exact fun value hmem => ((survey_seen hsurvey).2 value hmem).fits

end Amberchain.Ubjson
