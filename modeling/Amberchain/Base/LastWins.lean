import Mathlib.Data.List.Induction
import Mathlib.Data.List.Sort

/-!
# Folds over a sorted map

A map that keeps the first item of each key is walked over in the order of its keys.  Where
an item may replace the result, the item with the greatest key decides.
-/

namespace Amberchain.LastWins

variable {α β κ : Type*} [LinearOrder κ] {key : α → κ}

def Ordered (key : α → κ) (item other : α) : Prop :=
  key item ≤ key other

instance : DecidableRel (Ordered key) :=
  fun item other => inferInstanceAs (Decidable (key item ≤ key other))

instance : IsTrans α (Ordered key) :=
  ⟨fun _ _ _ hfirst hsecond => le_trans hfirst hsecond⟩

instance : Std.Total (Ordered key) :=
  ⟨fun item other => le_total (key item) (key other)⟩

def insertByKey (key : α → κ) (items : List α) (item : α) : List α :=
  if items.any fun other => key other = key item then items
  else items.orderedInsert (Ordered key) item

def sortByKey (key : α → κ) (items : List α) : List α :=
  items.foldl (insertByKey key) []

variable {items : List α}

theorem sorted_insertByKey (hsorted : items.Pairwise (Ordered key)) (item : α) :
    (insertByKey key items item).Pairwise (Ordered key) := by
  unfold insertByKey
  split
  · exact hsorted
  exact hsorted.orderedInsert item items

theorem mem_of_mem_insertByKey {item other : α}
    (hmem : other ∈ insertByKey key items item) : other = item ∨ other ∈ items := by
  unfold insertByKey at hmem
  split at hmem
  · exact .inr hmem
  exact (List.mem_orderedInsert (Ordered key)).mp hmem

theorem exists_mem_insertByKey (items : List α) (item : α) {other : α}
    (hmem : other = item ∨ other ∈ items) :
    ∃ kept ∈ insertByKey key items item, key kept = key other := by
  unfold insertByKey
  split
  · rename_i hany
    obtain ⟨first, hfirst, hkey⟩ := List.any_eq_true.mp hany
    rcases hmem with rfl | hold
    · exact ⟨first, hfirst, of_decide_eq_true hkey⟩
    · exact ⟨other, hold, rfl⟩
  exact ⟨other, (List.mem_orderedInsert (Ordered key)).mpr hmem, rfl⟩

theorem sorted_foldl_insertByKey (items : List α) : ∀ {kept : List α}, kept.Pairwise (Ordered key) →
      (items.foldl (insertByKey key) kept).Pairwise (Ordered key) := by
  induction items with
  | nil => exact fun hsorted => hsorted
  | cons item items ih => exact fun hsorted => ih (sorted_insertByKey hsorted item)

theorem mem_of_mem_foldl_insertByKey (items : List α) :
    ∀ {kept : List α} {item : α}, item ∈ items.foldl (insertByKey key) kept →
      item ∈ kept ∨ item ∈ items := by
  induction items with
  | nil => exact fun hmem => .inl hmem
  | cons head items ih =>
    intro kept item hmem
    rcases ih hmem with hkept | hrest
    · rcases mem_of_mem_insertByKey hkept with rfl | hold
      · exact .inr (.head _)
      · exact .inl hold
    exact .inr (.tail _ hrest)

theorem exists_mem_foldl_insertByKey (items : List α) :
    ∀ {kept : List α} {item : α}, item ∈ kept ∨ item ∈ items →
      ∃ other ∈ items.foldl (insertByKey key) kept, key other = key item := by
  induction items with
  | nil =>
    rintro kept item (hkept | hnone)
    · exact ⟨item, hkept, rfl⟩
    · cases hnone
  | cons head items ih =>
    intro kept item hmem
    by_cases hrest : item ∈ items
    · exact ih (.inr hrest)
    have hfirst : item = head ∨ item ∈ kept := by
      rcases hmem with hkept | hcons
      · exact .inr hkept
      · exact .inl ((List.mem_cons.mp hcons).resolve_right hrest)
    obtain ⟨first, hfirst, hkey⟩ : ∃ first ∈ insertByKey key kept head, key first = key item :=
      exists_mem_insertByKey kept head hfirst
    obtain ⟨other, hother, hsame⟩ := ih (.inl hfirst)
    exact ⟨other, hother, hsame.trans hkey⟩

theorem sorted_sortByKey (items : List α) : (sortByKey key items).Pairwise (Ordered key) :=
  sorted_foldl_insertByKey items List.Pairwise.nil

theorem mem_of_mem_sortByKey {item : α} (hmem : item ∈ sortByKey key items) : item ∈ items :=
  (mem_of_mem_foldl_insertByKey items hmem).resolve_left List.not_mem_nil

theorem exists_mem_sortByKey {item : α} (hmem : item ∈ items) :
    ∃ other ∈ sortByKey key items, key other = key item :=
  exists_mem_foldl_insertByKey items (.inr hmem)

/-- Over sorted items, the last one that has a value decides. -/
theorem foldl_getD_of_sorted {effect : α → Option β} {items : List α}
    (hsorted : items.Pairwise (Ordered key)) (start : β) :
    let result := items.foldl (fun value item => (effect item).getD value) start
    (∃ item ∈ items, effect item = some result ∧
        ∀ other ∈ items, (effect other).isSome → key other ≤ key item) ∨
      (∀ item ∈ items, effect item = none) ∧ result = start := by
  induction items using List.reverseRecOn with
  | nil => exact .inr ⟨fun _ hnone => absurd hnone List.not_mem_nil, rfl⟩
  | append_singleton items last ih =>
    obtain ⟨hfront, -, hlast⟩ := List.pairwise_append.mp hsorted
    rw [List.foldl_append, List.foldl_cons]
    rcases heffect : effect last with _ | value
    · rcases ih hfront with ⟨item, hmem, hitem, hgreatest⟩ | ⟨hnone, hstart⟩
      · refine .inl ⟨item, List.mem_append_left _ hmem, hitem, fun other hother hsome => ?_⟩
        rcases List.mem_append.mp hother with hold | hnew
        · exact hgreatest other hold hsome
        rw [List.mem_singleton.mp hnew, heffect] at hsome
        cases hsome
      refine .inr ⟨fun item hmem => ?_, hstart⟩
      rcases List.mem_append.mp hmem with hold | hnew
      · exact hnone item hold
      · rw [List.mem_singleton.mp hnew, heffect]
    refine .inl ⟨last, List.mem_append_right _ (.head _), heffect,
      fun other hother _ => ?_⟩
    rcases List.mem_append.mp hother with hold | hnew
    · exact hlast other hold last (.head _)
    rw [List.mem_singleton.mp hnew]

end Amberchain.LastWins
