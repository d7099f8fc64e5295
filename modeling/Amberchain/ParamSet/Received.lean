import Amberchain.ParamSet.Layout
import Mathlib.Data.List.TakeWhile

/-!
# What `Set` makes of a string

A string is read as a list of items, each a name with its value where the value lies in the
string.  The loop of `Set` keeps the first value of each parameter of the table, and it ends
with their layout, or leaves a buffer.
-/

namespace Amberchain.ParamSet

open Memory

structure Item where
  name : Bytes
  value : Option Bytes
deriving DecidableEq

def itemsFrom : ℕ → Bytes → Option (List Item)
  | 0, _ => some []
  | fuel + 1, rest =>
    if rest.head?.getD 0 = 0 then some []
    else if (0 : Byte) ∉ rest then none
    else
      let name := rest.takeWhile (· ≠ 0)
      let sized := rest.drop (name.length + 1)
      let size := getLE sized paramSizeBytes
      let behind := sized.drop paramSizeBytes
      if sized.length < paramSizeBytes then some [⟨name, none⟩]
      else if size ≤ behind.length then
        (itemsFrom fuel (behind.drop size)).map (⟨name, some (behind.take size)⟩ :: ·)
      else (itemsFrom fuel behind).map (⟨name, none⟩ :: ·)

def items (source : Bytes) : Option (List Item) :=
  itemsFrom source.length source

/-- The first value of each parameter of the table. -/
def kept (seen : List ℕ) : List Item → List Entry
  | [] => []
  | item :: rest =>
    match item.value, index item.name with
    | some value, some i =>
      if i ∈ seen then kept seen rest else (i, value) :: kept (seen ++ [i]) rest
    | _, _ => kept seen rest

def FirstSized (source : Bytes) : Prop :=
  source.head?.getD 0 = 0 ∨
    (source.takeWhile (· ≠ 0)).length + 1 + paramSizeBytes ≤ source.length

instance (source : Bytes) : Decidable (FirstSized source) := by
  unfold FirstSized
  infer_instance

/-- Every name ends in the string, the first one has a size behind it, and there is room for
what is kept. -/
def Acceptable (source : Bytes) : Prop :=
  FirstSized source ∧
    ∃ list, items source = some list ∧ (encode (kept [] list)).length ≤ allocated

variable {entries : List Entry}

section Turn

variable {source before key sized : Bytes} {state : MultichainParams.SetState}

/-- The loop ends at the end of the string, and at an empty name. -/
theorem setStep_end {rest : Bytes} (hsource : source = before ++ rest)
    (hj : state.j = before.length) (hend : rest.head?.getD 0 = 0) :
    MultichainParams.setStep source state = .ok none := by
  rw [MultichainParams.setStep, hj]
  cases rest with
  | nil =>
    rw [List.append_nil] at hsource
    rw [hsource, if_neg (Int.lt_irrefl _)]
  | cons byte rest =>
    have hzero : byte = 0 := hend
    subst hzero
    have hread : read source before.length 1 = some [0] := by
      rw [hsource]
      exact read_of_append [0] rest
    have hlt : (before.length : ℤ) < source.length := by
      rw [hsource, List.length_append, List.length_cons]
      omega
    rw [if_pos hlt, hread]
    rfl

/-- A name that does not end in the string is read beyond it. -/
theorem setStep_unterminated {rest : Bytes} (hsource : source = before ++ rest)
    (hj : state.j = before.length) (hfirst : rest.head?.getD 0 ≠ 0) (hlast : (0 : Byte) ∉ rest) :
    MultichainParams.setStep source state = .error .undefined := by
  rw [MultichainParams.setStep, hj]
  cases rest with
  | nil => exact absurd rfl hfirst
  | cons byte rest =>
    have hbyte : byte ≠ 0 := hfirst
    have hread : read source before.length 1 = some [byte] := by
      rw [hsource]
      exact read_of_append [byte] rest
    have hlt : (before.length : ℤ) < source.length := by
      rw [hsource, List.length_append, List.length_cons]
      omega
    have hkey : readUntil 0 source before.length = none := by
      apply readUntil_eq_none
      rw [hsource, List.drop_left]
      exact hlast
    have hother : ¬ ([byte] = [0]) := by simpa using hbyte
    rw [if_pos hlt, hread]
    simp only [access, bind, Except.bind]
    rw [if_neg hother, hkey]

section

variable (hsource : source = before ++ (key ++ 0 :: sized)) (hj : state.j = before.length)

include hsource hj

theorem setStep_name (hkey : key ≠ []) (hzero : (0 : Byte) ∉ key) :
    MultichainParams.setStep source state
      = (MultichainParams.setEntry source key state).map some := by
  rw [MultichainParams.setStep, hj]
  cases key with
  | nil => exact absurd rfl hkey
  | cons byte key =>
    have hbyte : byte ≠ 0 := by
      rintro rfl
      exact hzero (.head _)
    have hread : read source before.length 1 = some [byte] := by
      rw [hsource]
      exact read_of_append [byte] _
    have hlt : (before.length : ℤ) < source.length := by
      rw [hsource]
      simp only [List.length_append, List.length_cons]
      omega
    have hname : readUntil 0 source before.length = some (byte :: key) := by
      rw [readUntil_drop, hsource, List.drop_left, takeWhile_terminated hzero]
      rw [hsource, List.drop_left]
      exact List.mem_append_right _ (.head _)
    have hother : ¬ ([byte] = [0]) := by simpa using hbyte
    rw [if_pos hlt, hread]
    simp only [access, bind, Except.bind]
    rw [if_neg hother, hname]
    rfl

/-- Without room for a size, the loop goes beyond the string. -/
theorem setEntry_unsized (hshort : sized.length < paramSizeBytes)
    (hsize : 0 ≤ state.size) : MultichainParams.setEntry source key state
      = .ok { state with j := before.length + (key.length + 1) + paramSizeBytes } := by
  have hlength : source.length = before.length + (key.length + 1 + sized.length) := by
    rw [hsource]
    simp only [List.length_append, List.length_cons]
    omega
  have hnosize : ¬ ((before.length : ℤ) + (key.length + 1) + paramSizeBytes ≤ source.length) := by
    omega
  have hnovalue : ¬ ((before.length : ℤ) + (key.length + 1) + paramSizeBytes + state.size
      ≤ source.length) := by
    omega
  rw [MultichainParams.setEntry, hj]
  rw [if_neg hnosize]
  simp only [bind, Except.bind]
  rw [if_neg hnovalue]

/-- With a size, the value behind it is looked at when it lies in the string. -/
theorem setEntry_sized (hlong : paramSizeBytes ≤ sized.length) :
    MultichainParams.setEntry source key state
      = if getLE sized paramSizeBytes ≤ (sized.drop paramSizeBytes).length then
          MultichainParams.setValue source key
            { state with
              size := getLE sized paramSizeBytes
              j := before.length + (key.length + 1) + paramSizeBytes }
        else .ok { state with
          size := getLE sized paramSizeBytes
          j := before.length + (key.length + 1) + paramSizeBytes } := by
  have hlength : source.length = before.length + (key.length + 1 + sized.length) := by
    rw [hsource]
    simp only [List.length_append, List.length_cons]
    omega
  have hsized : (before.length : ℤ) + (key.length + 1) + paramSizeBytes ≤ source.length := by
    omega
  have hread : read source ((before.length : ℤ) + (key.length + 1)) paramSizeBytes
      = some (sized.take paramSizeBytes) := by
    have hfits : before.length + (key.length + 1) + paramSizeBytes ≤ source.length := by omega
    have hdrop : source.drop (before.length + (key.length + 1)) = sized := by
      rw [hsource, ← List.drop_drop, List.drop_left, ← List.drop_drop, List.drop_left,
        List.drop_one, List.tail_cons]
    have hread := read_drop hfits
    rw [hdrop] at hread
    exact_mod_cast hread
  have hvalue : getLE (sized.take paramSizeBytes) paramSizeBytes = getLE sized paramSizeBytes := by
    rw [getLE, List.take_take, Nat.min_self, getLE]
  rw [MultichainParams.setEntry, hj]
  rw [if_pos hsized, hread]
  simp only [access, bind, Except.bind]
  rw [hvalue]
  have hiff : (before.length : ℤ) + (key.length + 1) + paramSizeBytes
      + (getLE sized paramSizeBytes : ℕ) ≤ source.length
      ↔ getLE sized paramSizeBytes ≤ (sized.drop paramSizeBytes).length := by
    rw [List.length_drop]
    omega
  by_cases hfits : getLE sized paramSizeBytes ≤ (sized.drop paramSizeBytes).length
  · rw [if_pos hfits, if_pos (hiff.mpr hfits)]
  rw [if_neg hfits, if_neg fun h => hfits (hiff.mp h)]

end

def skipValue (state : MultichainParams.SetState) : MultichainParams.SetState :=
  { state with j := state.j + state.size }

/-- A value that is not kept: the name is unknown, or met before. -/
theorem setValue_skip (hparams : state.params = layOut entries)
    (hskip : ∀ i, index key = some i → i ∈ entries.map Prod.fst) :
    MultichainParams.setValue source key state = .ok (skipValue state) := by
  rw [MultichainParams.setValue]
  cases hindex : index key with
  | none => rfl
  | some i =>
    obtain ⟨param, hget, -⟩ := index_eq_some_iff.mp hindex
    have hi : i < count := (List.getElem?_eq_some_iff.mp hget).1
    have hset : ¬ ((layOut entries).coordAt i).1 < 0 := by
      rw [coordAt_layOut_neg_iff hi, not_not]
      exact hskip i hindex
    dsimp only
    rw [hparams, if_neg hset, skipValue, ← hparams]

/-- A value that is kept is written behind the data. -/
theorem setValue_keep {i : ℕ} {value rest : Bytes}
    (hparams : state.params = layOut entries) (hindex : index key = some i)
    (hnew : i ∉ entries.map Prod.fst) (hsource : source = before ++ (value ++ rest))
    (hj : state.j = before.length) (hsize : state.size = value.length) :
    MultichainParams.setValue source key state
      = ((layOut entries).append i key value.length value).map fun params =>
          skipValue { state with params } := by
  obtain ⟨param, hget, -⟩ := index_eq_some_iff.mp hindex
  have hi : i < count := (List.getElem?_eq_some_iff.mp hget).1
  have hunset : ((layOut entries).coordAt i).1 < 0 := (coordAt_layOut_neg_iff hi).mpr hnew
  have hread : read source before.length value.length = some value := by
    rw [hsource]
    exact read_of_append value rest
  have hvalue : (if (0 : ℤ) < value.length then access (read source before.length value.length)
      else .ok []) = .ok value := by
    split
    · rw [hread]
      rfl
    next hempty =>
      have hnil : value = [] := List.eq_nil_of_length_eq_zero (by omega)
      rw [hnil]
  rw [MultichainParams.setValue, hindex]
  dsimp only
  rw [hparams, if_pos hunset, hj, hsize, hvalue]
  simp only [bind, Except.bind]
  cases (layOut entries).append i key value.length value with
  | error stop => rfl
  | ok params =>
    rfl

end Turn

/-- How `Set` ends after some entries, when the rest of the string has these items. -/
def outcome (entries : List Entry) : Option (List Item) → Except Stop MultichainParams
  | none => .error .undefined
  | some list =>
    if (encode (entries ++ kept (entries.map Prod.fst) list)).length ≤ allocated then
      .ok (layOut (entries ++ kept (entries.map Prod.fst) list))
    else .error .undefined

theorem kept_skip {seen : List ℕ} {item : Item} {list : List Item}
    (hskip : item.value = none ∨ ∀ i, index item.name = some i → i ∈ seen) :
    kept seen (item :: list) = kept seen list := by
  rw [kept.eq_def]
  dsimp only
  cases hvalue : item.value with
  | none => rfl
  | some value =>
    cases hindex : index item.name with
    | none => rfl
    | some i =>
      have hmem : i ∈ seen := by
        rcases hskip with hnone | hseen
        · rw [hvalue] at hnone
          cases hnone
        · exact hseen i hindex
      dsimp only
      rw [if_pos hmem]

theorem kept_keep {seen : List ℕ} {item : Item} {list : List Item} {value : Bytes} {i : ℕ}
    (hvalue : item.value = some value) (hindex : index item.name = some i) (hnew : i ∉ seen) :
    kept seen (item :: list) = (i, value) :: kept (seen ++ [i]) list := by
  rw [kept.eq_def]
  dsimp only
  rw [hvalue, hindex]
  dsimp only
  rw [if_neg hnew]

theorem outcome_skip {item : Item} (rest : Option (List Item))
    (hskip : item.value = none ∨ ∀ i, index item.name = some i → i ∈ entries.map Prod.fst) :
    outcome entries (rest.map (item :: ·)) = outcome entries rest := by
  cases rest with
  | none => rfl
  | some list => rw [Option.map_some, outcome, outcome, kept_skip hskip]

theorem outcome_keep {item : Item} {value : Bytes} {i : ℕ}
    (rest : Option (List Item)) (hvalue : item.value = some value)
    (hindex : index item.name = some i) (hnew : i ∉ entries.map Prod.fst) :
    outcome entries (rest.map (item :: ·)) = outcome (entries ++ [(i, value)]) rest := by
  cases rest with
  | none => rfl
  | some list =>
    have happend : entries ++ kept (entries.map Prod.fst) (item :: list)
        = entries ++ [(i, value)] ++ kept ((entries ++ [(i, value)]).map Prod.fst) list := by
      rw [kept_keep hvalue hindex hnew, List.map_append, List.append_assoc]
      rfl
    rw [Option.map_some, outcome, outcome, happend]

theorem outcome_eq_undefined (rest : Option (List Item))
    (hover : allocated < (encode entries).length) : outcome entries rest = .error .undefined := by
  cases rest with
  | none => rfl
  | some list =>
    rw [outcome, if_neg]
    rw [length_encode_append]
    omega

theorem outcome_nil (hfits : (encode entries).length ≤ allocated) :
    outcome entries (some []) = .ok (layOut entries) := by
  rw [outcome, kept, List.append_nil, if_pos hfits]

/-- A string that does not start with an end starts with a name. -/
theorem name_cases {rest : Bytes} (hfirst : rest.head?.getD 0 ≠ 0) (hlast : (0 : Byte) ∈ rest) :
    rest.takeWhile (· ≠ 0) ≠ [] ∧ (0 : Byte) ∉ rest.takeWhile (· ≠ 0) ∧
      rest.takeWhile (· ≠ 0) ++ 0 :: rest.drop ((rest.takeWhile (· ≠ 0)).length + 1) = rest := by
  refine ⟨?_, ?_, takeWhile_append_last hlast⟩
  · cases rest with
    | nil => exact absurd rfl hfirst
    | cons byte rest =>
      have hbyte : byte ≠ 0 := hfirst
      rw [List.takeWhile_cons, if_pos (decide_eq_true hbyte)]
      exact List.cons_ne_nil _ _
  intro hmem
  have hkept := List.mem_takeWhile_imp hmem
  simp at hkept

theorem setLoop_beyond {source : Bytes} {state : MultichainParams.SetState} (fuel : ℕ)
    (hbeyond : (source.length : ℤ) ≤ state.j) :
    MultichainParams.setLoop source (fuel + 1) state = some (.ok state.params) := by
  rw [MultichainParams.setLoop, MultichainParams.setStep, if_neg (by omega)]

/-- What is done with a value: it is passed, or kept, or there is no room for it. -/
theorem setValue_outcome {source start key value rest : Bytes} {entries : List Entry}
    {params : MultichainParams} {size j : ℤ} (hparams : params = layOut entries)
    (hsource : source = start ++ (value ++ rest)) (hj : j = start.length)
    (hsize : size = value.length) (hfits : (encode entries).length ≤ allocated) :
    (∃ next more, MultichainParams.setValue source key ⟨params, size, j⟩ = .ok next ∧
      next.params = layOut more ∧ next.j = (start ++ value).length ∧ 0 ≤ next.size ∧
      (encode more).length ≤ allocated ∧ ∀ list : Option (List Item),
        outcome entries (list.map (⟨key, some value⟩ :: ·)) = outcome more list) ∨
    (MultichainParams.setValue source key ⟨params, size, j⟩ = .error .undefined ∧
      ∀ list : Option (List Item),
        outcome entries (list.map (⟨key, some value⟩ :: ·)) = .error .undefined) := by
  have hend : j + size = (start ++ value).length := by
    rw [hj, hsize, List.length_append, Nat.cast_add]
  have hnonneg : 0 ≤ size := by omega
  by_cases hskip : ∀ i, index key = some i → i ∈ entries.map Prod.fst
  · left
    refine ⟨_, entries, setValue_skip hparams hskip, hparams, hend, hnonneg, hfits, ?_⟩
    intro list
    exact outcome_skip list (.inr hskip)
  push Not at hskip
  obtain ⟨i, hindex, hnew⟩ := hskip
  obtain ⟨param, hget, rfl⟩ := index_eq_some_iff.mp hindex
  have hkeep : ∀ list : Option (List Item),
      outcome entries (list.map (⟨param.key, some value⟩ :: ·))
        = outcome (entries ++ [(i, value)]) list :=
    fun list => outcome_keep list rfl hindex hnew
  have hvalue : MultichainParams.setValue source param.key ⟨params, size, j⟩
      = ((layOut entries).append i param.key value.length value).map fun params =>
          skipValue ⟨params, size, j⟩ :=
    setValue_keep hparams hindex hnew hsource hj hsize
  by_cases hroom : (encode (entries ++ [(i, value)])).length ≤ allocated
  · left
    rw [append_layOut hget hroom] at hvalue
    exact ⟨_, _, hvalue, rfl, hend, hnonneg, hroom, hkeep⟩
  right
  have hover := Nat.lt_of_not_le hroom
  rw [append_layOut_eq_undefined hget hfits hover] at hvalue
  refine ⟨hvalue, fun list => ?_⟩
  rw [hkeep, outcome_eq_undefined _ hover]

/-- From a state in which `size` is no garbage, the loop ends as the items say.  The
induction is on the turns; each takes at least the name and its end from the string. -/
theorem setLoop_eq {source : Bytes} (fuel : ℕ) :
    ∀ {before rest : Bytes} {entries : List Entry} {state : MultichainParams.SetState},
      source = before ++ rest → state.params = layOut entries → state.j = before.length →
      0 ≤ state.size → (encode entries).length ≤ allocated → rest.length ≤ fuel →
      MultichainParams.setLoop source (fuel + 1) state
        = some (outcome entries (itemsFrom fuel rest)) := by
  induction fuel with
  | zero =>
    intro before rest entries state hsource hparams hj hsize hfits hfuel
    have hnil : rest = [] := List.eq_nil_of_length_eq_zero (Nat.le_zero.mp hfuel)
    have hstep := setStep_end hsource hj (by rw [hnil]; rfl)
    rw [MultichainParams.setLoop, hstep, itemsFrom, outcome_nil hfits, ← hparams]
  | succ fuel ih =>
    intro before rest entries state hsource hparams hj hsize hfits hfuel
    rw [itemsFrom]
    by_cases hend : rest.head?.getD 0 = 0
    · rw [if_pos hend, MultichainParams.setLoop, setStep_end hsource hj hend,
        outcome_nil hfits, ← hparams]
    rw [if_neg hend]
    by_cases hlast : (0 : Byte) ∈ rest
    case neg =>
      rw [if_pos hlast, MultichainParams.setLoop, setStep_unterminated hsource hj hend hlast]
      rfl
    rw [if_neg (not_not.mpr hlast)]
    dsimp only
    obtain ⟨hkey, hzero, hrest⟩ := name_cases hend hlast
    generalize rest.takeWhile (· ≠ 0) = key at hkey hzero hrest ⊢
    generalize rest.drop (key.length + 1) = sized at hrest ⊢
    have hsource' : source = before ++ (key ++ 0 :: sized) := by
      rw [hrest]
      exact hsource
    have hlength : rest.length = key.length + (1 + sized.length) := by
      rw [← hrest, List.length_append, List.length_cons]
      omega
    rw [MultichainParams.setLoop, setStep_name hsource' hj hkey hzero]
    by_cases hshort : sized.length < paramSizeBytes
    · have hbeyond : (source.length : ℤ)
          ≤ before.length + (key.length + 1) + paramSizeBytes := by
        rw [hsource, List.length_append]
        omega
      rw [if_pos hshort, setEntry_unsized hsource' hj hshort hsize]
      dsimp only [Except.map]
      rw [setLoop_beyond fuel hbeyond, outcome, kept_skip (.inl rfl), kept, List.append_nil,
        if_pos hfits, ← hparams]
    have hlong : paramSizeBytes ≤ sized.length := Nat.le_of_not_lt hshort
    rw [if_neg hshort, setEntry_sized hsource' hj hlong]
    -- The string up to the place behind the size of the value.
    have hsplit : source = (before ++ (key ++ 0 :: sized.take paramSizeBytes))
        ++ sized.drop paramSizeBytes := by
      rw [hsource', List.append_assoc, List.append_assoc, List.cons_append, List.take_append_drop]
    have hbefore : ((before ++ (key ++ 0 :: sized.take paramSizeBytes)).length : ℤ)
        = before.length + (key.length + 1) + paramSizeBytes := by
      simp only [List.length_append, List.length_cons, List.length_take]
      omega
    have hbehind : (sized.drop paramSizeBytes).length ≤ fuel := by
      rw [List.length_drop]
      omega
    generalize before ++ (key ++ 0 :: sized.take paramSizeBytes) = start at hsplit hbefore
    generalize getLE sized paramSizeBytes = size
    generalize sized.drop paramSizeBytes = behind at hsplit hbehind ⊢
    by_cases hvalue : size ≤ behind.length
    case neg =>
      rw [if_neg hvalue, if_neg hvalue, outcome_skip _ (.inl rfl)]
      exact ih hsplit hparams hbefore.symm (Int.natCast_nonneg size) hfits hbehind
    rw [if_pos hvalue, if_pos hvalue]
    have htake : (behind.take size).length = size := by
      rw [List.length_take]
      omega
    have hsplit' : source = start ++ (behind.take size ++ behind.drop size) := by
      rw [List.take_append_drop]
      exact hsplit
    have hsize' : (size : ℤ) = (behind.take size).length := by rw [htake]
    have hfuel' : (behind.drop size).length ≤ fuel := by
      rw [List.length_drop]
      omega
    have hdone := @setValue_outcome _ _ key _ _ _ _ _ _ hparams hsplit' hbefore.symm hsize' hfits
    rcases hdone with ⟨next, more, hnext, hparams', hj', hnonneg, hfits', hsame⟩ |
      ⟨herror, hsame⟩
    · rw [hnext, hsame]
      have hsource'' : source = (start ++ behind.take size) ++ behind.drop size := by
        rw [List.append_assoc]
        exact hsplit'
      exact ih hsource'' hparams' hj' hnonneg hfits' hfuel'
    rw [herror, hsame]
    rfl

end Amberchain.ParamSet
