import Mathlib.Algebra.Order.Ring.Int
import Mathlib.Computability.StateTransition

/-!
# Loops that move a cursor

A loop is a step on its variables that ends when there is no next step.  One of
the variables is a cursor in a text.  When every round moves the cursor forward and
none moves it out of the text, the loop ends.
-/

namespace Amberchain.Cursor

open StateTransition

/-- A part of a text, given by its offset and size, that lies inside the text. -/
def Inside (length : ℤ) (part : ℤ × ℤ) : Prop :=
  0 ≤ part.1 ∧ 0 ≤ part.2 ∧ part.1 + part.2 ≤ length

variable {σ : Type*} (step : σ → Option σ) (cursor : σ → ℤ) (parts : σ → List (ℤ × ℤ))
  (length : ℤ)

/-- The loop makes progress in every round, its cursor stays inside the text, and so
do the parts of the text that it takes. -/
structure Scans (start : σ) : Prop where
  advances : ∀ {before behind : σ}, Reaches step start before → step before = some behind →
    cursor before < cursor behind
  inside : ∀ {state : σ}, Reaches step start state → 0 ≤ cursor state ∧ cursor state ≤ length
  parts : ∀ {state : σ}, Reaches step start state → ∀ part ∈ parts state, Inside length part
  terminates : ∃ final, Reaches step start final ∧ step final = none

variable {step cursor parts length} {start : σ}

theorem reaches_induction (invariant : σ → Prop) (hstart : invariant start)
    (hstep : ∀ {before behind : σ}, Reaches step start before → invariant before →
      step before = some behind → invariant behind)
    {state : σ} (hreach : Reaches step start state) : invariant state := by
  induction hreach with
  | refl => exact hstart
  | tail hbefore hnext ih => exact hstep hbefore ih hnext

/-- A cursor that moves forward but stays below a bound comes to an end. -/
theorem exists_final
    (hadvances : ∀ {before behind : σ}, Reaches step start before → step before = some behind →
      cursor before < cursor behind)
    (hbound : ∀ {state : σ}, Reaches step start state → cursor state ≤ length) :
    ∃ final, Reaches step start final ∧ step final = none := by
  have hrounds : ∀ (rounds : ℕ) (state : σ), Reaches step start state →
      (length - cursor state).toNat ≤ rounds → ∃ final, Reaches step start final
        ∧ step final = none := by
    intro rounds
    induction rounds with
    | zero =>
      intro state hreach hrounds
      cases hnext : step state with
      | none => exact ⟨state, hreach, hnext⟩
      | some behind =>
        have hlt := hadvances hreach hnext
        have hle := hbound (hreach.tail hnext)
        omega
    | succ rounds ih =>
      intro state hreach hrounds
      cases hnext : step state with
      | none => exact ⟨state, hreach, hnext⟩
      | some behind =>
        have hlt := hadvances hreach hnext
        exact ih behind (hreach.tail hnext) (by omega)
  exact hrounds _ start Relation.ReflTransGen.refl le_rfl

/-- A loop scans its text when an invariant says so and every round keeps it. -/
theorem Scans.of_invariant (invariant : σ → Prop) (hstart : invariant start)
    (hstep : ∀ {before behind : σ}, Reaches step start before → invariant before →
      step before = some behind → invariant behind ∧ cursor before < cursor behind)
    (hinside : ∀ {state : σ}, invariant state → 0 ≤ cursor state ∧ cursor state ≤ length)
    (hparts : ∀ {state : σ}, Reaches step start state → invariant state →
      ∀ part ∈ parts state, Inside length part) : Scans step cursor parts length start := by
  have hinvariant : ∀ {state : σ}, Reaches step start state → invariant state :=
    reaches_induction invariant hstart fun hreach hbefore hnext =>
      (hstep hreach hbefore hnext).1
  have hadvances : ∀ {before behind : σ}, Reaches step start before →
      step before = some behind → cursor before < cursor behind :=
    fun hreach hnext => (hstep hreach (hinvariant hreach) hnext).2
  exact {
    advances := hadvances
    inside := fun hreach => hinside (hinvariant hreach)
    parts := fun hreach => hparts hreach (hinvariant hreach)
    terminates := exists_final hadvances fun hreach => (hinside (hinvariant hreach)).2 }

end Amberchain.Cursor
