import Mathlib.Algebra.BigOperators.Group.List.Basic

/-!
# Lists that keep the first item of each key

A loop that passes over the items whose key it has met before keeps the first item of each
key.
-/

namespace Amberchain.FirstKept

variable {α κ : Type*} [DecidableEq κ] (key : α → κ)

def keepFirst (kept : List α) (item : α) : List α :=
  if key item ∈ kept.map key then kept else kept ++ [item]

variable {key}

/-- What the rounds keep: what was kept before, and the first item of each new key. -/
theorem mem_foldl_keepFirst {items kept : List α} {item : α} :
    item ∈ items.foldl (keepFirst key) kept ↔ item ∈ kept ∨ key item ∉ kept.map key
        ∧ items.find? (fun other => key other = key item) = some item := by
  induction items generalizing kept with
  | nil => simp
  | cons head tail ih =>
    rw [List.foldl_cons, ih, keepFirst]
    by_cases hhead : key head ∈ kept.map key
    · rw [if_pos hhead]
      refine or_congr_right (and_congr_right fun hnew => ?_)
      have hne : key head ≠ key item := by
        intro heq
        exact hnew (heq ▸ hhead)
      rw [List.find?_cons_of_neg (by simpa using hne)]
    rw [if_neg hhead, List.mem_append, List.mem_singleton, List.map_append, List.mem_append,
      List.map_singleton, List.mem_singleton]
    by_cases hkey : key head = key item
    · rw [List.find?_cons_of_pos (by simpa using hkey)]
      constructor
      · rintro ((hkept | rfl) | ⟨hnew, -⟩)
        · exact .inl hkept
        · exact .inr ⟨hhead, rfl⟩
        · exact absurd (.inr hkey.symm) hnew
      rintro (hkept | ⟨-, hfound⟩)
      · exact .inl (.inl hkept)
      · exact .inl (.inr (Option.some.inj hfound).symm)
    rw [List.find?_cons_of_neg (by simpa using hkey)]
    have hother : item ≠ head := by
      rintro rfl
      exact hkey rfl
    constructor
    · rintro ((hkept | heq) | ⟨hnew, hfound⟩)
      · exact .inl hkept
      · exact absurd heq hother
      · exact .inr ⟨fun hmem => hnew (.inl hmem), hfound⟩
    rintro (hkept | ⟨hnew, hfound⟩)
    · exact .inl (.inl hkept)
    exact .inr ⟨not_or.mpr ⟨hnew, Ne.symm hkey⟩, hfound⟩

theorem mem_foldl_keepFirst_nil {items : List α} {item : α} : item ∈ items.foldl (keepFirst key) []
      ↔ items.find? (fun other => key other = key item) = some item := by
  rw [mem_foldl_keepFirst]
  simp

end Amberchain.FirstKept

/-!
# Loops that can fail

A loop that stops at the first error is a monadic fold in `Except`.  When it
succeeds, every round succeeded, so an invariant of the rounds is one of the
loop, also when it counts what the rounds did.
-/

namespace Amberchain.Folding

universe u

variable {ε σ β M : Type*} {step : σ → β → Except ε σ}

theorem bind_eq_ok {α γ : Type u} {first : Except ε α} {second : α → Except ε γ} {result : γ} :
    (first >>= second) = .ok result ↔ ∃ value, first = .ok value ∧ second value = .ok result := by
  cases first with
  | error err =>
    constructor
    · intro h
      cases h
    rintro ⟨value, h, -⟩
    cases h
  | ok value =>
    constructor
    · intro h
      exact ⟨value, rfl, h⟩
    rintro ⟨value', h, hsecond⟩
    cases h
    exact hsecond

theorem foldlM_cons_eq_ok {item : β} {items : List β} {start final : σ} :
    (item :: items).foldlM step start = .ok final
      ↔ ∃ next, step start item = .ok next ∧ items.foldlM step next = .ok final := by
  exact bind_eq_ok

theorem foldlM_sum [AddMonoid M] {weight : β → M} {related : σ → M → Prop}
    (hstep : ∀ {state item next amount}, related state amount → step state item = .ok next →
      related next (amount + weight item)) :
    ∀ {items : List β} {start final : σ} {amount : M}, related start amount →
      items.foldlM step start = .ok final → related final (amount + (items.map weight).sum)
  | [], start, final, amount, hstart, hrun => by
    cases hrun
    simpa only [List.map_nil, List.sum_nil, add_zero] using hstart
  | item :: items, start, final, amount, hstart, hrun => by
    obtain ⟨next, hnext, hrest⟩ := foldlM_cons_eq_ok.mp hrun
    have htail := foldlM_sum hstep (hstep hstart hnext) hrest
    rwa [List.map_cons, List.sum_cons, ← add_assoc]

theorem foldlM_error (property : ε → Prop)
    (hstep : ∀ {state item err}, step state item = .error err → property err) :
    ∀ {items : List β} {start : σ} {err : ε}, items.foldlM step start = .error err → property err
  | [], start, err, hrun => by cases hrun
  | item :: items, start, err, hrun => by
    rw [List.foldlM_cons] at hrun
    cases hnext : step start item with
    | error err' =>
      rw [hnext] at hrun
      cases hrun
      exact hstep hnext
    | ok next =>
      rw [hnext] at hrun
      exact foldlM_error property hstep hrun

/-- A loop whose rounds only move on moves on as a whole, and ends behind each of its
rounds. -/
theorem foldlM_moves {moves : σ → σ → Prop} (hrefl : ∀ state, moves state state)
    (htrans : ∀ {first second third}, moves first second → moves second third → moves first third)
    (hstep : ∀ {state item next}, step state item = .ok next → moves state next) :
    ∀ {items : List β} {start final : σ}, items.foldlM step start = .ok final → moves start final
        ∧ ∀ item ∈ items, ∃ state next, step state item = .ok next ∧ moves next final
  | [], start, final, hrun => by
    cases hrun
    exact ⟨hrefl start, List.forall_mem_nil _⟩
  | item :: items, start, final, hrun => by
    obtain ⟨next, hnext, hrest⟩ := foldlM_cons_eq_ok.mp hrun
    obtain ⟨hmoves, hrounds⟩ := foldlM_moves hrefl htrans hstep hrest
    exact ⟨htrans (hstep hnext) hmoves,
      List.forall_mem_cons.mpr ⟨⟨start, next, hnext, hmoves⟩, hrounds⟩⟩

/-- A check of every item succeeds exactly if it does for each. -/
theorem forM_eq_ok {check : β → Except ε PUnit} :
    ∀ {items : List β}, items.forM check = .ok ⟨⟩ ↔ ∀ item ∈ items, check item = .ok ⟨⟩
  | [] => by
    constructor
    · intro _ item hitem
      cases hitem
    intro _
    rfl
  | item :: items => by
    have hcons : (item :: items).forM check = check item >>= fun _ => items.forM check := rfl
    rw [hcons, List.forall_mem_cons, ← forM_eq_ok]
    cases hcheck : check item with
    | error err =>
      constructor
      · intro h
        cases h
      rintro ⟨h, -⟩
      cases h
    | ok value =>
      constructor
      · intro h
        exact ⟨rfl, h⟩
      intro h
      exact h.2

end Amberchain.Folding
