import Mathlib.Tactic.Common

/-!
# Computations that change a state and can fail

A failed computation leaves the state as it was when it failed, so what is said
of a computation is said of both ways in which it can end.
-/

namespace Amberchain.Failing

universe u

variable {ε σ α β : Type u}

def finalState : EStateM.Result ε σ α → σ
  | .ok _ state => state
  | .error _ state => state

def failure : EStateM.Result ε σ α → Option ε
  | .ok _ _ => none
  | .error err _ => some err

/-- From `before`, a computation that succeeds ends in `after` and one that fails
ends in `failed`. -/
def Triple (before : σ → Prop) (program : EStateM ε σ α) (after : α → σ → Prop)
    (failed : σ → Prop) : Prop :=
  ∀ state, before state →
    match program state with
    | .ok value next => after value next
    | .error _ next => failed next

def Keeps (invariant : σ → Prop) (program : EStateM ε σ α) : Prop :=
  Triple invariant program (fun _ => invariant) invariant

theorem get_bind_apply (rest : σ → EStateM ε σ α) (state : σ) :
    (get >>= rest) state = rest state state := rfl

theorem bind_apply (first : EStateM ε σ α) (second : α → EStateM ε σ β) (state : σ) :
    (first >>= second) state =
      match first state with
      | .ok value next => second value next
      | .error err next => .error err next :=
  rfl

variable {first : EStateM ε σ α} {second : α → EStateM ε σ β}

theorem bind_eq_ok {state final : σ} {result : β} : (first >>= second) state = .ok result final
      ↔ ∃ value next, first state = .ok value next ∧ second value next = .ok result final := by
  rw [bind_apply]
  cases hfirst : first state with
  | ok value next =>
    constructor
    · intro h
      exact ⟨value, next, rfl, h⟩
    rintro ⟨value', next', h, hsecond⟩
    cases h
    exact hsecond
  | error err next =>
    constructor
    · intro h
      cases h
    rintro ⟨value, next', h, -⟩
    cases h

variable {program : EStateM ε σ α}

namespace Triple

variable {before before' : σ → Prop} {after after' : α → σ → Prop} {failed failed' : σ → Prop}

theorem bind {last : β → σ → Prop} (hfirst : Triple before first after failed)
    (hsecond : ∀ value, Triple (after value) (second value) last failed) :
    Triple before (first >>= second) last failed := by
  intro state hstate
  have hrun := hfirst state hstate
  rw [bind_apply]
  cases hresult : first state with
  | ok value next =>
    rw [hresult] at hrun
    exact hsecond value next hrun
  | error err next =>
    rw [hresult] at hrun
    exact hrun

theorem pure {value : α} (hpure : ∀ state, before state → after value state) :
    Triple before (pure value : EStateM ε σ α) after failed :=
  hpure

theorem throw {err : ε} (hthrow : ∀ state, before state → failed state) :
    Triple before (throw err : EStateM ε σ α) after failed :=
  hthrow

theorem get {after : σ → σ → Prop} (hget : ∀ state, before state → after state state) :
    Triple before (get : EStateM ε σ σ) after failed :=
  hget

theorem modify {change : σ → σ} {after : PUnit → σ → Prop}
    (hmodify : ∀ state, before state → after ⟨⟩ (change state)) :
    Triple before (modify change : EStateM ε σ PUnit) after failed :=
  hmodify

theorem weaken (h : Triple before program after failed)
    (hbefore : ∀ state, before' state → before state)
    (hafter : ∀ value state, after value state → after' value state)
    (hfailed : ∀ state, failed state → failed' state) : Triple before' program after' failed' := by
  intro state hstate
  have hrun := h state (hbefore state hstate)
  cases hresult : program state with
  | ok value next =>
    rw [hresult] at hrun
    exact hafter value next hrun
  | error err next =>
    rw [hresult] at hrun
    exact hfailed next hrun

/-- Where a computation ends, when both ways in which it can end say the same. -/
theorem finalState {last : σ → Prop}
    (h : Triple before program (fun _ => last) last) {state : σ} (hstate : before state) :
    last (finalState (program state)) := by
  have hrun := h state hstate
  cases hresult : program state with
  | ok value next =>
    rw [hresult] at hrun
    exact hrun
  | error err next =>
    rw [hresult] at hrun
    exact hrun

theorem foldlM_range {step : α → ℕ → EStateM ε σ α} {invariant : ℕ → α → σ → Prop} {start : α}
    (count : ℕ) (hstep : ∀ index < count, ∀ value,
      Triple (invariant index value) (step value index) (invariant (index + 1)) failed) :
    Triple (invariant 0 start) ((List.range count).foldlM step start) (invariant count) failed := by
  induction count with
  | zero =>
    intro state hstate
    exact hstate
  | succ count ih =>
    rw [List.range_succ, List.foldlM_append]
    apply bind (ih fun index hindex => hstep index (Nat.lt_succ_of_lt hindex))
    intro value
    have hlast := hstep count (Nat.lt_succ_self count) value
    simpa only [List.foldlM_cons, List.foldlM_nil, bind_pure] using hlast

end Triple

/-- The computation keeps an invariant when it succeeds. -/
def Preserves (invariant failed : σ → Prop) (program : EStateM ε σ α) : Prop :=
  Triple invariant program (fun _ => invariant) failed

variable {ι : Type*} {items : List ι} {body : ι → EStateM ε σ PUnit}

namespace Preserves

variable {invariant failed : σ → Prop}

theorem bind (hfirst : Preserves invariant failed first)
    (hsecond : ∀ value, Preserves invariant failed (second value)) :
    Preserves invariant failed (first >>= second) :=
  Triple.bind hfirst hsecond

theorem pure (value : α) : Preserves invariant failed (pure value : EStateM ε σ α) :=
  fun _ hstate => hstate

theorem throw (hfailed : ∀ state, invariant state → failed state) (err : ε) :
    Preserves invariant failed (throw err : EStateM ε σ α) :=
  hfailed

theorem get : Preserves invariant failed (get : EStateM ε σ σ) :=
  fun _ hstate => hstate

theorem get_bind {after : α → σ → Prop} {rest : σ → EStateM ε σ α}
    (hrest : ∀ state, invariant state → Triple (fun now => now = state) (rest state) after failed) :
    Triple invariant (MonadState.get >>= rest) after failed := by
  intro state hstate
  exact hrest state hstate state rfl

theorem modify {change : σ → σ} (hmodify : ∀ state, invariant state → invariant (change state)) :
    Preserves invariant failed (modify change : EStateM ε σ PUnit) :=
  hmodify

theorem forM (hbody : ∀ item ∈ items, Preserves invariant failed (body item)) :
    Preserves invariant failed (items.forM body) := by
  induction items with
  | nil => exact fun _ hstate => hstate
  | cons item items ih =>
    rw [List.forall_mem_cons] at hbody
    exact Preserves.bind hbody.1 fun _ => ih hbody.2

theorem foldlM {step : α → ι → EStateM ε σ α}
    (hstep : ∀ value, ∀ item ∈ items, Preserves invariant failed (step value item)) :
    ∀ start, Preserves invariant failed (items.foldlM step start) := by
  induction items with
  | nil => exact fun start _ hstate => hstate
  | cons item items ih =>
    intro start
    apply Preserves.bind (hstep start item (.head _))
    intro value
    exact ih (fun value other hother => hstep value other (List.mem_cons_of_mem item hother))
      value

theorem forM_eq_ok
    (hbody : ∀ item ∈ items, Preserves invariant failed (body item)) {state final : σ}
    (hstate : invariant state) (hloop : items.forM body state = .ok ⟨⟩ final) : invariant final
      ∧ ∀ item ∈ items, ∃ before after, invariant before ∧ body item before = .ok ⟨⟩ after := by
  induction items generalizing state with
  | nil =>
    cases hloop
    exact ⟨hstate, List.forall_mem_nil _⟩
  | cons head tail ih =>
    obtain ⟨hhead, htail⟩ := List.forall_mem_cons.mp hbody
    obtain ⟨⟨⟩, middle, hround, hrest⟩ := bind_eq_ok.mp hloop
    have hmiddle := hhead state hstate
    rw [hround] at hmiddle
    obtain ⟨hfinal, hrounds⟩ := ih htail hmiddle hrest
    exact ⟨hfinal, List.forall_mem_cons.mpr ⟨⟨state, middle, hstate, hround⟩, hrounds⟩⟩

end Preserves

namespace Keeps

variable {invariant : σ → Prop}

theorem bind (hfirst : Keeps invariant first) (hsecond : ∀ value, Keeps invariant (second value)) :
    Keeps invariant (first >>= second) :=
  Triple.bind hfirst hsecond

theorem pure (value : α) : Keeps invariant (pure value : EStateM ε σ α) :=
  fun _ hstate => hstate

theorem throw (err : ε) : Keeps invariant (throw err : EStateM ε σ α) :=
  fun _ hstate => hstate

theorem get : Keeps invariant (get : EStateM ε σ σ) :=
  fun _ hstate => hstate

theorem modify {change : σ → σ} (hmodify : ∀ state, invariant state → invariant (change state)) :
    Keeps invariant (modify change : EStateM ε σ PUnit) :=
  hmodify

theorem forM
    (hbody : ∀ item ∈ items, Keeps invariant (body item)) : Keeps invariant (items.forM body) :=
  Preserves.forM hbody

theorem foldlM {step : α → ι → EStateM ε σ α}
    (hstep : ∀ value, ∀ item ∈ items, Keeps invariant (step value item)) (start : α) :
    Keeps invariant (items.foldlM step start) :=
  Preserves.foldlM hstep start

end Keeps

theorem Triple.forM_zipIdx {ι : Type*} {failed : σ → Prop} {invariant : ℕ → σ → Prop}
    {body : ι × ℕ → EStateM ε σ PUnit} {items : List ι} {start : ℕ}
    (hbody : ∀ index (hindex : index < items.length),
      Triple (invariant (start + index)) (body (items[index], start + index))
        (fun _ => invariant (start + index + 1)) failed) :
    Triple (invariant start) ((items.zipIdx start).forM body)
      (fun _ => invariant (start + items.length)) failed := by
  induction items generalizing start with
  | nil => exact fun _ hstate => hstate
  | cons item items ih =>
    refine Triple.bind (hbody 0 (Nat.zero_lt_succ _)) fun _ => ?_
    have htail := @ih (start + 1) fun index hindex => by
      have hnext := hbody (index + 1) (Nat.succ_lt_succ hindex)
      rwa [show start + (index + 1) = start + 1 + index by omega] at hnext
    rwa [List.length_cons, show start + (items.length + 1) = start + 1 + items.length by omega]

end Amberchain.Failing
