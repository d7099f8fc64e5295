import Mathlib.Data.List.Basic
import Amberchain.Base.Failing

/-!
# Framed encodings

An encoding is framed when a value can be told from what follows it.  Encodings of fixed
length are framed, and so is one framed encoding after another.
-/

namespace Amberchain.Framing

variable {α β τ : Type*}

/-- Encoded valid values are told apart whatever follows them. -/
def Framed (encode : α → List τ) (valid : α → Prop) : Prop :=
  ∀ ⦃a b : α⦄ ⦃rest other : List τ⦄, valid a → valid b →
    encode a ++ rest = encode b ++ other → a = b ∧ rest = other

namespace Framed

variable {encode : α → List τ} {valid : α → Prop}

theorem of_decode {γ : Type*} (decode : List τ → γ) (value : γ → α)
    (hdecode : ∀ a, valid a → ∀ rest, value (decode (encode a ++ rest)) = a) :
    Framed encode valid := by
  intro a b rest other ha hb heq
  have hsame : a = b := by
    rw [← hdecode a ha rest, heq, hdecode b hb other]
  subst hsame
  exact ⟨rfl, List.append_cancel_left heq⟩

theorem append {encode' : β → List τ} {valid' : β → Prop} (hframed : Framed encode valid)
    (hframed' : Framed encode' valid') :
    Framed (fun pair : α × β => encode pair.1 ++ encode' pair.2)
      fun pair => valid pair.1 ∧ valid' pair.2 := by
  rintro ⟨a, a'⟩ ⟨b, b'⟩ rest other ⟨ha, ha'⟩ ⟨hb, hb'⟩ heq
  rw [List.append_assoc, List.append_assoc] at heq
  obtain ⟨rfl, htail⟩ := hframed ha hb heq
  obtain ⟨rfl, hrest⟩ := hframed' ha' hb' htail
  exact ⟨rfl, hrest⟩

/-- As many values as before, one after the other. -/
theorem flatMap (hframed : Framed encode valid) {as bs : List α} {rest other : List τ}
    (hlength : as.length = bs.length) (has : ∀ a ∈ as, valid a) (hbs : ∀ b ∈ bs, valid b)
    (heq : as.flatMap encode ++ rest = bs.flatMap encode ++ other) : as = bs ∧ rest = other := by
  induction as generalizing bs with
  | nil =>
    cases bs with
    | nil => exact ⟨rfl, heq⟩
    | cons b bs => cases hlength
  | cons a as ih =>
    cases bs with
    | nil => cases hlength
    | cons b bs =>
      rw [List.flatMap_cons, List.flatMap_cons, List.append_assoc, List.append_assoc] at heq
      obtain ⟨rfl, htail⟩ := hframed (has a (.head _)) (hbs b (.head _)) heq
      obtain ⟨rfl, hrest⟩ := ih (Nat.succ.inj hlength)
        (fun a hmem => has a (.tail _ hmem))
        (fun b hmem => hbs b (.tail _ hmem)) htail
      exact ⟨rfl, hrest⟩

end Framed

end Amberchain.Framing

/-!
# Computations that consume a text

A reader holds what is left of its input in its state.  Whatever it does, it takes a
prefix of what was left, keeps an invariant of the state and fails only with errors
that are allowed; when it succeeds, its result and what it took are related.
-/

namespace Amberchain.Consuming

open Failing

universe u

variable {ε σ α β : Type u} {τ : Type*} (rest : σ → List τ) (invariant : σ → Prop)
  (allowed : ε → Prop)

/-- What is said of the end of a computation that started with `start` left. -/
def Ends (start : List τ) (accepts : α → List τ → Prop) : EStateM.Result ε σ α → Prop
  | .ok value state => invariant state ∧ ∃ used, start = used ++ rest state ∧ accepts value used
  | .error err state => allowed err ∧ invariant state ∧ ∃ used, start = used ++ rest state

/-- With `start` left, the computation takes a prefix of it, which `accepts` relates to
its result. -/
def Consumes (program : EStateM ε σ α) (start : List τ) (accepts : α → List τ → Prop) : Prop :=
  ∀ state, rest state = start → invariant state →
    Ends rest invariant allowed start accepts (program state)

variable {value : α} {first : EStateM ε σ α} {second : α → EStateM ε σ β}

namespace Consumes

variable {rest invariant allowed} {start : List τ} {accepts accepts' : α → List τ → Prop}

theorem pure (haccepts : accepts value []) :
    Consumes rest invariant allowed (pure value) start accepts := by
  rintro state rfl hstate
  exact ⟨hstate, [], rfl, haccepts⟩

theorem throw {err : ε} (hallowed : allowed err) :
    Consumes rest invariant allowed (throw err : EStateM ε σ α) start accepts := by
  rintro state rfl hstate
  exact ⟨hallowed, hstate, [], rfl⟩

theorem weaken {program : EStateM ε σ α}
    (hprogram : Consumes rest invariant allowed program start accepts)
    (haccepts : ∀ value used, (∃ left, start = used ++ left) → accepts value used →
      accepts' value used) : Consumes rest invariant allowed program start accepts' := by
  intro state hstart hstate
  have hends := hprogram state hstart hstate
  cases hresult : program state with
  | ok value next =>
    rw [hresult] at hends
    obtain ⟨hnext, used, hused, haccept⟩ := hends
    exact ⟨hnext, used, hused, haccepts value used ⟨_, hused⟩ haccept⟩
  | error err next =>
    rw [hresult] at hends
    exact hends

variable {last : β → List τ → Prop}

/-- One computation after another takes one part of the text after another. -/
theorem bind (hfirst : Consumes rest invariant allowed first start accepts)
    (hsecond : ∀ value used left, start = used ++ left → accepts value used →
      Consumes rest invariant allowed (second value) left
        (fun result more => last result (used ++ more))) :
    Consumes rest invariant allowed (first >>= second) start last := by
  intro state hstart hstate
  have hends := hfirst state hstart hstate
  have hbind : (first >>= second) state =
      match first state with
      | .ok value next => second value next
      | .error err next => .error err next := rfl
  rw [hbind]
  cases hresult : first state with
  | error err next =>
    rw [hresult] at hends
    exact hends
  | ok value next =>
    rw [hresult] at hends
    obtain ⟨hnext, used, hused, haccept⟩ := hends
    have hlast := hsecond value used (rest next) hused haccept next rfl hnext
    dsimp only
    cases hrun : second value next with
    | ok result final =>
      rw [hrun] at hlast
      obtain ⟨hfinal, more, hmore, hresult⟩ := hlast
      refine ⟨hfinal, used ++ more, ?_, hresult⟩
      rw [hused, hmore, List.append_assoc]
    | error err final =>
      rw [hrun] at hlast
      obtain ⟨hallowed, hfinal, more, hmore⟩ := hlast
      refine ⟨hallowed, hfinal, used ++ more, ?_⟩
      rw [hused, hmore, List.append_assoc]

theorem bind_nothing {facts : α → Prop}
    (hfirst : Consumes rest invariant allowed first start fun value used => used = [] ∧ facts value)
    (hsecond : ∀ value, facts value → Consumes rest invariant allowed (second value) start last) :
    Consumes rest invariant allowed (first >>= second) start last := by
  apply bind hfirst
  rintro value _ left hstart ⟨rfl, hfacts⟩
  subst hstart
  exact hsecond value hfacts

theorem bind_pure {f : α → β}
    (hfirst : Consumes rest invariant allowed first start fun value used => last (f value) used) :
    Consumes rest invariant allowed (first >>= fun value => Pure.pure (f value)) start last := by
  apply bind hfirst
  intro value used left _ haccept
  apply pure
  rwa [List.append_nil]

end Consumes

/-- With `start` left, the computation succeeds with `value` and leaves `left`. -/
def Runs (program : EStateM ε σ α) (start : List τ) (value : α) (left : List τ) : Prop :=
  ∀ state, rest state = start → ∃ next, program state = .ok value next ∧ rest next = left

/-- With `start` left, the computation ends in a state that is marked. -/
def Marks (marked : σ → Prop) (program : EStateM ε σ α) (start : List τ) : Prop :=
  ∀ state, rest state = start → marked (finalState (program state))

variable {rest} {start middle left : List τ}

theorem Runs.pure : Runs rest (pure value : EStateM ε σ α) start value start :=
  fun state hstart => ⟨state, rfl, hstart⟩

theorem Runs.bind {result : β} (hfirst : Runs rest first start value middle)
    (hsecond : Runs rest (second value) middle result left) :
    Runs rest (first >>= second) start result left := by
  intro state hstart
  obtain ⟨next, hnext, hmiddle⟩ := hfirst state hstart
  obtain ⟨final, hfinal, hleft⟩ := hsecond next hmiddle
  exact ⟨final, bind_eq_ok.mpr ⟨value, next, hnext, hfinal⟩, hleft⟩

theorem Runs.bind_pure {f : α → β} (hfirst : Runs rest first start value left) :
    Runs rest (first >>= fun value => Pure.pure (f value)) start (f value) left :=
  hfirst.bind .pure

theorem Marks.bind_left {marked : σ → Prop} (hfirst : Marks rest marked first start)
    (hsecond : ∀ value, Keeps marked (second value)) :
    Marks rest marked (first >>= second) start := by
  intro state hstart
  have hmarked := hfirst state hstart
  rw [bind_apply]
  cases hresult : first state with
  | ok value next =>
    rw [hresult] at hmarked
    exact (hsecond value).finalState hmarked
  | error err next =>
    rw [hresult] at hmarked
    exact hmarked

theorem Marks.bind_right {marked : σ → Prop} (hfirst : Runs rest first start value middle)
    (hsecond : Marks rest marked (second value) middle) :
    Marks rest marked (first >>= second) start := by
  intro state hstart
  obtain ⟨next, hnext, hmiddle⟩ := hfirst state hstart
  rw [bind_apply, hnext]
  exact hsecond next hmiddle

end Amberchain.Consuming
