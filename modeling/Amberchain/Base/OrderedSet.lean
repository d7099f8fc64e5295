import Mathlib.Data.List.Basic

/-!
# Ordered sets under a comparator

A set that keeps its elements in the order of a comparator and finds them by it.  The
comparator may read fields that change: while the elements stay in order the set behaves
as a set, and a change of one element's fields keeps the order exactly when that element
stays on its side of every other one.
-/

namespace Amberchain.OrderedSet

variable {α : Type}

/-- A comparator that orders any two different elements. -/
structure Strict (less : α → α → Bool) : Prop where
  irrefl : ∀ element, less element element = false
  trans : ∀ {first second third}, less first second = true → less second third = true →
    less first third = true
  total : ∀ {first second}, less first second = false → first ≠ second →
    less second first = true

/-- The elements are strictly increasing. -/
def Sorted (less : α → α → Bool) (set : List α) : Prop :=
  set.Pairwise fun first second => less first second = true

variable (less : α → α → Bool)

/-- `find`, by the comparator alone. -/
def contains (element : α) : List α → Bool
  | [] => false
  | head :: rest =>
    if less head element then contains element rest
    else !less element head

/-- `insert`; an element that is found stays. -/
def insert (element : α) : List α → List α
  | [] => [element]
  | head :: rest =>
    if less head element then head :: insert element rest
    else if less element head then element :: head :: rest
    else head :: rest

def erase (element : α) : List α → List α
  | [] => []
  | head :: rest =>
    if less head element then head :: erase element rest
    else if less element head then head :: rest
    else rest

variable {less} (hstrict : Strict less) {set : List α} {element other : α}

include hstrict

namespace Strict

theorem asymm (hless : less element other = true) : less other element = false := by
  cases hback : less other element with
  | false => rfl
  | true =>
    have hself := hstrict.trans hless hback
    rw [hstrict.irrefl] at hself
    cases hself

theorem eq_of_not_less (hnot : less element other = false) (hback : less other element = false) :
    element = other := by
  by_contra hne
  rw [hstrict.total hnot hne] at hback
  cases hback

end Strict

theorem compare (head element : α) : (less head element = true ∧ head ≠ element) ∨
      (less head element = false ∧ less element head = true ∧ head ≠ element) ∨
      (less head element = false ∧ less element head = false ∧ head = element) := by
  cases hless : less head element with
  | true =>
    refine .inl ⟨rfl, fun heq => ?_⟩
    rw [heq, hstrict.irrefl] at hless
    cases hless
  | false =>
    cases hback : less element head with
    | true =>
      refine .inr (.inl ⟨rfl, rfl, fun heq => ?_⟩)
      rw [heq, hstrict.irrefl] at hback
      cases hback
    | false => exact .inr (.inr ⟨rfl, rfl, hstrict.eq_of_not_less hless hback⟩)

/-- Behind an element that is greater nothing is found. -/
theorem not_mem_of_less {head : α} {rest : List α} (hsorted : Sorted less (head :: rest))
    (hless : less element head = true) : element ∉ head :: rest := by
  intro hmem
  cases List.mem_cons.mp hmem with
  | inl heq =>
    rw [heq, hstrict.irrefl] at hless
    cases hless
  | inr hrest =>
    have hback := hstrict.asymm hless
    rw [(List.pairwise_cons.mp hsorted).1 element hrest] at hback
    cases hback

/-- In an ordered set every member is found, and nothing else. -/
theorem contains_iff (hsorted : Sorted less set) :
    contains less element set = true ↔ element ∈ set := by
  induction set with
  | nil =>
    exact ⟨fun hfound => (Bool.false_ne_true hfound).elim, fun hmem => absurd hmem List.not_mem_nil⟩
  | cons head rest ih =>
    have hrest := (List.pairwise_cons.mp hsorted).2
    unfold contains
    obtain ⟨hless, hne⟩ | ⟨hless, hback, -⟩ | ⟨hless, hback, heq⟩ := compare hstrict head element
    · rw [if_pos hless, ih hrest, List.mem_cons]
      exact ⟨.inr, fun hmem => hmem.resolve_left fun heq => hne heq.symm⟩
    · rw [if_neg (Bool.eq_false_iff.mp hless), hback]
      exact ⟨fun hfound => (Bool.false_ne_true hfound).elim,
        fun hmem => (not_mem_of_less hstrict hsorted hback hmem).elim⟩
    rw [if_neg (Bool.eq_false_iff.mp hless), hback, heq]
    exact ⟨fun _ => (.head _), fun _ => rfl⟩

theorem mem_insert (element : α) (set : List α) :
    other ∈ insert less element set ↔ other = element ∨ other ∈ set := by
  induction set with
  | nil => exact List.mem_cons
  | cons head rest ih =>
    unfold insert
    obtain ⟨hless, -⟩ | ⟨hless, hback, -⟩ | ⟨hless, hback, heq⟩ := compare hstrict head element
    · rw [if_pos hless, List.mem_cons, ih, List.mem_cons, or_left_comm]
    · rw [if_neg (Bool.eq_false_iff.mp hless), if_pos hback, List.mem_cons]
    rw [if_neg (Bool.eq_false_iff.mp hless), if_neg (Bool.eq_false_iff.mp hback), List.mem_cons,
      heq, or_self_left]

theorem sorted_insert (hsorted : Sorted less set) (element : α) :
    Sorted less (insert less element set) := by
  induction set with
  | nil => exact List.pairwise_singleton _ _
  | cons head rest ih =>
    obtain ⟨hhead, hrest⟩ := List.pairwise_cons.mp hsorted
    unfold insert
    obtain ⟨hless, -⟩ | ⟨hless, hback, -⟩ | ⟨hless, hback, -⟩ := compare hstrict head element
    · rw [if_pos hless]
      refine List.pairwise_cons.mpr ⟨fun other hmem => ?_, ih hrest⟩
      cases (mem_insert hstrict element rest).mp hmem with
      | inl heq =>
        rw [heq]
        exact hless
      | inr hin => exact hhead other hin
    · rw [if_neg (Bool.eq_false_iff.mp hless), if_pos hback]
      refine List.pairwise_cons.mpr ⟨fun other hmem => ?_, hsorted⟩
      cases List.mem_cons.mp hmem with
      | inl heq =>
        rw [heq]
        exact hback
      | inr hin => exact hstrict.trans hback (hhead other hin)
    rw [if_neg (Bool.eq_false_iff.mp hless), if_neg (Bool.eq_false_iff.mp hback)]
    exact hsorted

theorem mem_erase (hsorted : Sorted less set) :
    other ∈ erase less element set ↔ other ≠ element ∧ other ∈ set := by
  induction set with
  | nil => exact ⟨fun hmem => absurd hmem List.not_mem_nil, fun hmem => hmem.2⟩
  | cons head rest ih =>
    have hrest := (List.pairwise_cons.mp hsorted).2
    unfold erase
    obtain ⟨hless, hne⟩ | ⟨hless, hback, -⟩ | ⟨hless, hback, heq⟩ := compare hstrict head element
    · rw [if_pos hless, List.mem_cons, ih hrest, List.mem_cons]
      constructor
      · rintro (heq | ⟨hother, hmem⟩)
        · exact ⟨heq ▸ hne, .inl heq⟩
        · exact ⟨hother, .inr hmem⟩
      rintro ⟨hother, heq | hmem⟩
      · exact .inl heq
      · exact .inr ⟨hother, hmem⟩
    · rw [if_neg (Bool.eq_false_iff.mp hless), if_pos hback]
      have hnot := not_mem_of_less hstrict hsorted hback
      exact ⟨fun hmem => ⟨fun heq => hnot (heq ▸ hmem), hmem⟩, And.right⟩
    rw [if_neg (Bool.eq_false_iff.mp hless), if_neg (Bool.eq_false_iff.mp hback), ← heq,
      List.mem_cons]
    constructor
    · intro hmem
      refine ⟨fun hother => ?_, .inr hmem⟩
      have hself := (List.pairwise_cons.mp hsorted).1 other hmem
      rw [hother, hstrict.irrefl] at hself
      cases hself
    rintro ⟨hother, hhead | hmem⟩
    · exact absurd hhead hother
    exact hmem

omit hstrict in
theorem erase_sublist (element : α) (set : List α) : (erase less element set).Sublist set := by
  induction set with
  | nil => exact List.Sublist.refl _
  | cons head rest ih =>
    unfold erase
    split
    · exact ih.cons_cons head
    split
    · exact List.Sublist.refl _
    exact List.sublist_cons_self head rest

omit hstrict in
theorem sorted_of_sublist {sub : List α} (hsorted : Sorted less set) (hsub : sub.Sublist set) :
    Sorted less sub :=
  hsorted.sublist hsub

theorem not_less_getLast (hsorted : Sorted less set) {last : α} (hlast : set.getLast? = some last)
    (hmem : other ∈ set) : less last other = false := by
  obtain ⟨front, rfl⟩ := List.getLast?_eq_some_iff.mp hlast
  cases List.mem_append.mp hmem with
  | inl hfront =>
    exact hstrict.asymm ((List.pairwise_append.mp hsorted).2.2 other hfront last (.head _))
  | inr hself =>
    rw [List.mem_singleton.mp hself]
    exact hstrict.irrefl last

/-- The new fields of an element leave it on its side of every other one. -/
def Stays (less rewritten : α → α → Bool) (set : List α) (element : α) : Prop :=
  element ∈ set → ∀ other ∈ set, rewritten element other = less element other ∧
    rewritten other element = less other element

/-- Rewriting the fields of one element keeps the order exactly when the element stays where
it is. -/
theorem sorted_rewritten_iff {rewritten : α → α → Bool} (hrewritten : Strict rewritten)
    (hsorted : Sorted less set)
    (hsame : ∀ {first second : α}, first ≠ element → second ≠ element →
      rewritten first second = less first second) :
    Sorted rewritten set ↔ Stays less rewritten set element := by
  constructor
  · intro hagain helement other hother
    have hboth : ∀ {front back : List α} {first second : α}, set = front ++ first :: back →
        second ∈ back → rewritten first second = less first second ∧
          rewritten second first = less second first := by
      intro front back first second hset hmem
      rw [hset] at hsorted hagain
      have hless := (List.pairwise_cons.mp (List.pairwise_append.mp hsorted).2.1).1 second hmem
      have hmore := (List.pairwise_cons.mp (List.pairwise_append.mp hagain).2.1).1 second hmem
      exact ⟨hmore.trans hless.symm, (hrewritten.asymm hmore).trans (hstrict.asymm hless).symm⟩
    obtain ⟨front, back, hset⟩ := List.append_of_mem helement
    rw [hset] at hother
    cases List.mem_append.mp hother with
    | inl hfront =>
      obtain ⟨first, rest, hfirst⟩ := List.append_of_mem hfront
      have hwhole : set = first ++ other :: (rest ++ element :: back) := by
        rw [hset, hfirst, List.append_assoc, List.cons_append]
      exact (hboth hwhole (List.mem_append_right _ (.head _))).symm
    | inr hback =>
      cases List.mem_cons.mp hback with
      | inl heq =>
        rw [heq]
        exact ⟨(hrewritten.irrefl _).trans (hstrict.irrefl _).symm,
          (hrewritten.irrefl _).trans (hstrict.irrefl _).symm⟩
      | inr hrest => exact hboth hset hrest
  intro hstays
  refine List.Pairwise.imp_of_mem (fun {first second} hfirst hsecond hless => ?_) hsorted
  by_cases hone : first = element
  · subst hone
    rw [(hstays hfirst second hsecond).1]
    exact hless
  by_cases htwo : second = element
  · subst htwo
    rw [(hstays hsecond first hfirst).2]
    exact hless
  rw [hsame hone htwo]
  exact hless

end Amberchain.OrderedSet
