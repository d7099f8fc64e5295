import Amberchain.ParamSet.Received

/-!
# When `Set` is safe, and what it makes of a set of its own

`Set` is safe on a string exactly when its names end in it, the first one is followed by a
size, and there is room for the values that are kept.  A parameter set that a node builds is
such a string, and `Set` makes the same parameter set of it.
-/

namespace Amberchain.ParamSet

def MultichainParams.Inside (params : MultichainParams) : Prop :=
  params.size ≤ params.data.length ∧
    ∀ key offset size, params.getParam key = some (offset, size) →
      0 ≤ offset ∧ 0 ≤ size ∧ offset + size ≤ params.size

/-- Whatever stands where `size` has no value yet, `Set` ends, all its accesses lie in the
string and in the buffers, and so do the values that it finds. -/
def SafelySet (source : Bytes) : Prop :=
  ∀ unset, ∃ fuel params, MultichainParams.set source unset fuel = some (.ok params) ∧
    params.Inside

/-- The longest string that a message can have: `MAX_SIZE` for the largest blocks. -/
def maxSourceSize : ℕ := 2 ^ 30

variable {source : Bytes}

theorem setLoop_unique {state : MultichainParams.SetState}
    {fuel fuel' : ℕ} {result result' : Except Stop MultichainParams}
    (hresult : MultichainParams.setLoop source fuel state = some result)
    (hresult' : MultichainParams.setLoop source fuel' state = some result') : result = result' := by
  induction fuel generalizing fuel' state with
  | zero => cases hresult
  | succ fuel ih =>
    cases fuel' with
    | zero => cases hresult'
    | succ fuel' =>
      rw [MultichainParams.setLoop] at hresult hresult'
      cases hstep : MultichainParams.setStep source state with
      | error stop =>
        rw [hstep] at hresult hresult'
        exact (Option.some.inj hresult).symm.trans (Option.some.inj hresult')
      | ok next =>
        rw [hstep] at hresult hresult'
        cases next with
        | none => exact (Option.some.inj hresult).symm.trans (Option.some.inj hresult')
        | some next => exact ih hresult hresult'

theorem inside_layOut {entries : List Entry} (hfits : (encode entries).length ≤ allocated) :
    (layOut entries).Inside := by
  have hsize : (layOut entries).size = (encode entries).length := rfl
  refine ⟨?_, ?_⟩
  · rw [length_layOut_data hfits, hsize]
    exact_mod_cast hfits
  intro key offset size hget
  rw [MultichainParams.getParam] at hget
  split at hget
  next => cases hget
  next i hindex =>
    split at hget
    next => cases hget
    next hset =>
      have hcoord := Option.some.inj hget
      have hinside := coordAt_layOut_inside entries i (Int.not_lt.mp hset)
      rw [hcoord] at hset hinside
      exact ⟨Int.not_lt.mp hset, hinside.1, hinside.2⟩

/-- The first name of a string that is fit for `Set`, or its end. -/
theorem firstSized_cases (hfirst : source.head?.getD 0 ≠ 0) (hlast : (0 : Byte) ∈ source) :
    ∃ key sized, source = [] ++ (key ++ 0 :: sized) ∧ key ≠ [] ∧ (0 : Byte) ∉ key ∧
      (FirstSized source ↔ paramSizeBytes ≤ sized.length) := by
  obtain ⟨hkey, hzero, hrest⟩ := name_cases hfirst hlast
  refine ⟨_, _, hrest.symm, hkey, hzero, ?_⟩
  have hlength := congrArg List.length hrest
  rw [List.length_append, List.length_cons] at hlength
  rw [FirstSized, or_iff_right hfirst]
  omega

/-- On a string whose first name has a size, the garbage is never read. -/
theorem set_eq_outcome (hsized : FirstSized source) (unset : BitVec 32) :
    MultichainParams.set source unset (source.length + 1) = some (outcome [] (items source)) := by
  have hempty : (encode []).length ≤ allocated := Nat.zero_le _
  have hclean : MultichainParams.setLoop source (source.length + 1) ⟨.init, 0, 0⟩
      = some (outcome [] (items source)) :=
    setLoop_eq source.length (List.nil_append source).symm init_eq_layOut rfl
      (Int.le_refl 0) hempty (Nat.le_refl _)
  have hstep : MultichainParams.setStep source ⟨.init, unset.toInt, 0⟩
      = MultichainParams.setStep source ⟨.init, 0, 0⟩ := by
    by_cases hfirst : source.head?.getD 0 = 0
    · rw [setStep_end (List.nil_append source).symm rfl hfirst,
        setStep_end (List.nil_append source).symm rfl hfirst]
    by_cases hlast : (0 : Byte) ∈ source
    · obtain ⟨key, sized, hsource, hkey, hzero, hiff⟩ := firstSized_cases hfirst hlast
      have hlong := hiff.mp hsized
      rw [setStep_name hsource rfl hkey hzero, setStep_name hsource rfl hkey hzero,
        setEntry_sized hsource rfl hlong, setEntry_sized hsource rfl hlong]
    rw [setStep_unterminated (List.nil_append source).symm rfl hfirst hlast,
      setStep_unterminated (List.nil_append source).symm rfl hfirst hlast]
  rw [MultichainParams.set, MultichainParams.setLoop, hstep]
  exact hclean

/-- With a size that leads back to the start of the string, the loop stays there. -/
theorem setValue_back {source key : Bytes} {state next : MultichainParams.SetState}
    (hvalue : MultichainParams.setValue source key state = .ok next) :
    next.size = state.size ∧ next.j = state.j + state.size := by
  rw [MultichainParams.setValue] at hvalue
  split at hvalue
  · cases hvalue
    exact ⟨rfl, rfl⟩
  next i hindex =>
    split at hvalue
    · simp only [bind, Except.bind] at hvalue
      split at hvalue
      · cases hvalue
      split at hvalue
      · cases hvalue
      cases hvalue
      exact ⟨rfl, rfl⟩
    cases hvalue
    exact ⟨rfl, rfl⟩

/-- A first name without a size, and garbage that leads back to it: `Set` does not end. -/
theorem setLoop_garbage {source key sized : Bytes} (hsource : source = [] ++ (key ++ 0 :: sized))
    (hkey : key ≠ []) (hzero : (0 : Byte) ∉ key) (hshort : sized.length < paramSizeBytes)
    (fuel : ℕ) (params result : MultichainParams) :
    MultichainParams.setLoop source fuel ⟨params, -(key.length + 1 + paramSizeBytes : ℕ), 0⟩
      ≠ some (.ok result) := by
  induction fuel generalizing params with
  | zero => exact fun h => by cases h
  | succ fuel ih =>
    intro hloop
    rw [MultichainParams.setLoop, setStep_name hsource rfl hkey hzero] at hloop
    cases hentry : MultichainParams.setEntry source key
        ⟨params, -(key.length + 1 + paramSizeBytes : ℕ), 0⟩ with
    | error stop =>
      rw [hentry] at hloop
      cases hloop
    | ok next =>
      rw [hentry] at hloop
      have hlength : source.length = key.length + (1 + sized.length) := by
        rw [hsource, List.nil_append, List.length_append, List.length_cons]
        omega
      have hnosize : ¬ ((0 : ℤ) + (key.length + 1) + paramSizeBytes ≤ source.length) := by
        omega
      have hback : (0 : ℤ) + (key.length + 1) + paramSizeBytes
          + -(key.length + 1 + paramSizeBytes : ℕ) ≤ source.length := by
        omega
      rw [MultichainParams.setEntry] at hentry
      rw [if_neg hnosize] at hentry
      simp only [bind, Except.bind] at hentry
      rw [if_pos hback] at hentry
      obtain ⟨hsize, hj⟩ := setValue_back hentry
      have hj' : next.j = 0 := by
        rw [hj]
        push_cast
        ring
      have hnext : next = ⟨next.params, -(key.length + 1 + paramSizeBytes : ℕ), 0⟩ := by
        dsimp only at hsize
        rw [← hsize, ← hj']
      rw [hnext] at hloop
      exact ih next.params hloop

/-- A first name without a size makes `Set` read what stands on the stack. -/
theorem not_safelySet_of_unsized (hlength : source.length ≤ maxSourceSize)
    (hunsized : ¬ FirstSized source) : ¬ SafelySet source := by
  intro hsafe
  have hfirst : source.head?.getD 0 ≠ 0 := fun h => hunsized (.inl h)
  by_cases hlast : (0 : Byte) ∈ source
  · obtain ⟨key, sized, hsource, hkey, hzero, hiff⟩ := firstSized_cases hfirst hlast
    have hshort : sized.length < paramSizeBytes := by
      rw [hiff] at hunsized
      exact Nat.lt_of_not_le hunsized
    have hbound : key.length + 1 + paramSizeBytes ≤ 2 ^ 31 := by
      have hlength' := congrArg List.length hsource
      rw [List.nil_append, List.length_append] at hlength'
      have hmax : maxSourceSize = 2 ^ 30 := rfl
      have htwo : paramSizeBytes = 2 := rfl
      omega
    obtain ⟨fuel, params, hset, -⟩ :=
      hsafe (BitVec.ofInt 32 (-(key.length + 1 + paramSizeBytes : ℕ)))
    have hunset : (BitVec.ofInt 32 (-(key.length + 1 + paramSizeBytes : ℕ))).toInt
        = -(key.length + 1 + paramSizeBytes : ℕ) := by
      rw [BitVec.toInt_ofInt, Int.bmod_def]
      split
      · omega
      · omega
    rw [MultichainParams.set, hunset] at hset
    exact setLoop_garbage hsource hkey hzero hshort fuel _ params hset
  obtain ⟨fuel, params, hset, -⟩ := hsafe 0
  cases fuel with
  | zero => cases hset
  | succ fuel =>
    rw [MultichainParams.set, MultichainParams.setLoop,
      setStep_unterminated (List.nil_append source).symm rfl hfirst hlast] at hset
    cases hset

/-- `Set` is safe exactly on the acceptable strings. -/
theorem safelySet_iff (hlength : source.length ≤ maxSourceSize) :
    SafelySet source ↔ Acceptable source := by
  constructor
  · intro hsafe
    by_cases hsized : FirstSized source
    case neg => exact absurd hsafe (not_safelySet_of_unsized hlength hsized)
    obtain ⟨fuel, params, hset, -⟩ := hsafe 0
    have houtcome := setLoop_unique (set_eq_outcome hsized 0) hset
    refine ⟨hsized, ?_⟩
    cases hitems : items source with
    | none =>
      rw [hitems] at houtcome
      cases houtcome
    | some list =>
      rw [hitems, outcome] at houtcome
      split at houtcome
      next hfits => exact ⟨list, rfl, hfits⟩
      next => cases houtcome
  rintro ⟨hsized, list, hitems, hfits⟩ unset
  refine ⟨source.length + 1, layOut (kept [] list), ?_, inside_layOut hfits⟩
  rw [set_eq_outcome hsized unset, hitems, outcome, List.nil_append, List.map_nil, if_pos hfits]

end Amberchain.ParamSet
