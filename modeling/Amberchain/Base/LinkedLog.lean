import Mathlib.Data.Int.Notation
import Mathlib.Data.List.Basic

/-!
# Chains in a log with keys

A log, the newest entry first, in which each entry either starts a chain or joins
the chain of an older entry, and is found under some keys.  The index of the log
takes a key to the entry that holds it and to the newest entry of that entry's
chain.  Only some keys may be tracked: those that no two entries share.
-/

namespace Amberchain.LinkedLog

/-- What is known of an entry: its position, the position where its chain starts,
and its keys. -/
structure View (α κ : Type*) where
  pos : α → ℤ
  first : α → ℤ
  keys : α → List κ

variable {α κ : Type*} [DecidableEq κ] (view : View α κ)

/-- The newest entry of the chain that starts at a position. -/
def head (log : List α) (pos : ℤ) : ℤ :=
  ((log.find? fun entry => view.first entry = pos).map view.pos).getD pos

def holder (log : List α) (key : κ) : Option α :=
  log.find? fun entry => key ∈ view.keys entry

def locate (log : List α) (key : κ) : Option (α × ℤ) :=
  (holder view log key).map fun entry => (entry, head view log (view.pos entry))

/-- An entry that may stand in front of the log. -/
structure Joins (tracked : κ → Prop) (entry : α) (older : List α) : Prop where
  below : ∀ before ∈ older, view.pos before < view.pos entry
  link : view.first entry = view.pos entry ∨
    ∃ start ∈ older, view.pos start = view.first entry ∧ view.first start = view.pos start
  fresh : ∀ key ∈ view.keys entry, tracked key → ∀ before ∈ older, key ∉ view.keys before

/-- Every entry may stand in front of the older ones. -/
inductive WellFormed (tracked : κ → Prop) : List α → Prop where
  | nil : WellFormed tracked []
  | cons {entry : α} {older : List α} (hjoins : Joins view tracked entry older)
      (holder : WellFormed tracked older) : WellFormed tracked (entry :: older)

variable {view} {tracked : κ → Prop} {log older : List α} {entry start : α} {key : κ} {pos : ℤ}

omit [DecidableEq κ] in
theorem head_cons_of_eq (hfirst : view.first entry = pos) :
    head view (entry :: older) pos = view.pos entry := by
  unfold head
  rw [List.find?_cons_of_pos (by simpa using hfirst)]
  rfl

omit [DecidableEq κ] in
theorem head_cons_of_ne (hfirst : view.first entry ≠ pos) :
    head view (entry :: older) pos = head view older pos := by
  unfold head
  rw [List.find?_cons_of_neg (by simpa using hfirst)]

omit [DecidableEq κ] in
theorem head_eq_self (hnone : ∀ entry ∈ log, view.first entry ≠ pos) : head view log pos = pos := by
  unfold head
  rw [List.find?_eq_none.mpr (by simpa using hnone)]
  rfl

namespace WellFormed

omit [DecidableEq κ] in
omit [DecidableEq κ] in
theorem first_le (hlog : WellFormed view tracked log) (hentry : entry ∈ log) :
    view.first entry ≤ view.pos entry := by
  induction hlog with
  | nil => cases hentry
  | @cons newest older hjoins holder ih =>
    rcases List.mem_cons.mp hentry with rfl | hmem
    · rcases hjoins.link with hself | ⟨start, hstart, hpos, _⟩
      · exact Int.le_of_eq hself
      rw [← hpos]
      exact Int.le_of_lt (hjoins.below start hstart)
    exact ih hmem

omit [DecidableEq κ] in
omit [DecidableEq κ] in
/-- Positions tell entries apart. -/
theorem eq_of_pos (hlog : WellFormed view tracked log) (hentry : entry ∈ log)
    (hstart : start ∈ log) (hpos : view.pos entry = view.pos start) : entry = start := by
  induction hlog with
  | nil => cases hentry
  | @cons newest older hjoins holder ih =>
    rcases List.mem_cons.mp hentry with rfl | hmem
    · rcases List.mem_cons.mp hstart with rfl | hold
      · rfl
      · exact absurd (hpos ▸ hjoins.below start hold) (Int.lt_irrefl _)
    rcases List.mem_cons.mp hstart with rfl | hold
    · exact absurd (hpos ▸ hjoins.below entry hmem) (Int.lt_irrefl _)
    exact ih hmem hold

omit [DecidableEq κ] in
theorem eq_of_key (hlog : WellFormed view tracked log) (hentry : entry ∈ log)
    (hstart : start ∈ log) (htracked : tracked key) (hkey : key ∈ view.keys entry)
    (hother : key ∈ view.keys start) : entry = start := by
  induction hlog with
  | nil => cases hentry
  | @cons newest older hjoins holder ih =>
    rcases List.mem_cons.mp hentry with rfl | hmem
    · rcases List.mem_cons.mp hstart with rfl | hold
      · rfl
      · exact absurd hother (hjoins.fresh key hkey htracked start hold)
    rcases List.mem_cons.mp hstart with rfl | hold
    · exact absurd hkey (hjoins.fresh key hother htracked entry hmem)
    exact ih hmem hold

theorem holder_eq (hlog : WellFormed view tracked log) (hentry : entry ∈ log)
    (htracked : tracked key) (hkey : key ∈ view.keys entry) : holder view log key = some entry := by
  cases hfound : holder view log key with
  | none =>
    have hnone := List.find?_eq_none.mp hfound entry hentry
    exact absurd (decide_eq_true hkey) hnone
  | some other =>
    have hother : key ∈ view.keys other := by
      simpa using List.find?_some hfound
    rw [hlog.eq_of_key hentry (List.mem_of_find?_eq_some hfound) htracked hkey hother]

theorem locate_eq (hlog : WellFormed view tracked log) (hentry : entry ∈ log)
    (htracked : tracked key) (hkey : key ∈ view.keys entry) :
    locate view log key = some (entry, head view log (view.pos entry)) := by
  unfold locate
  rw [hlog.holder_eq hentry htracked hkey]
  rfl

end WellFormed

theorem locate_eq_none (hnone : ∀ entry ∈ log, key ∉ view.keys entry) :
    locate view log key = none := by
  unfold locate holder
  rw [List.find?_eq_none.mpr (by simpa using hnone)]
  rfl

namespace Joins

/-- The head of a chain does not change, unless the entry joins that chain. -/
theorem locate_cons_of_notMem (hjoins : Joins view tracked entry older)
    (hlog : WellFormed view tracked older) (hkey : key ∉ view.keys entry)
    (hstart : start ∈ older → view.pos start = view.first entry → key ∉ view.keys start)
    (hlink : view.first entry = view.pos entry ∨ start ∈ older ∧ view.pos start = view.first entry) :
    locate view (entry :: older) key = locate view older key := by
  unfold locate holder
  rw [List.find?_cons_of_neg (by simpa using hkey)]
  cases hfound : older.find? fun entry => key ∈ view.keys entry with
  | none => rfl
  | some other =>
    have hmem := List.mem_of_find?_eq_some hfound
    have hother : key ∈ view.keys other := by simpa using List.find?_some hfound
    have hne : view.first entry ≠ view.pos other := by
      rcases hlink with hself | ⟨hin, hpos⟩
      · rw [hself]
        exact Int.ne_of_gt (hjoins.below other hmem)
      intro heq
      have hsame := hlog.eq_of_pos hmem hin (heq.symm.trans hpos.symm)
      exact hstart hin hpos (hsame ▸ hother)
    rw [Option.map_some, Option.map_some, head_cons_of_ne hne]

theorem locate_cons_start (hjoins : Joins view tracked entry older)
    (hlog : WellFormed view tracked older) (hfirst : view.first entry = view.pos entry) :
    locate view (entry :: older) key =
      if key ∈ view.keys entry then some (entry, view.pos entry) else locate view older key := by
  by_cases hkey : key ∈ view.keys entry
  · rw [if_pos hkey]
    unfold locate holder
    rw [List.find?_cons_of_pos (by simpa using hkey), Option.map_some, head_cons_of_eq hfirst]
  rw [if_neg hkey]
  exact @locate_cons_of_notMem _ _ _ _ _ _ entry entry _ hjoins hlog hkey
    (fun _ _ => hkey) (.inl hfirst)

/-- An entry that joins a chain is found under its keys, and becomes the newest
entry under the keys of the one that started the chain. -/
theorem locate_cons_joined (hjoins : Joins view tracked entry older)
    (hlog : WellFormed view tracked older) (hstart : start ∈ older)
    (hpos : view.pos start = view.first entry) (htracked : tracked key) :
    locate view (entry :: older) key =
      if key ∈ view.keys entry then some (entry, view.pos entry)
      else if key ∈ view.keys start then some (start, view.pos entry)
      else locate view older key := by
  have hbelow := hjoins.below start hstart
  by_cases hkey : key ∈ view.keys entry
  · rw [if_pos hkey]
    unfold locate holder
    rw [List.find?_cons_of_pos (by simpa using hkey), Option.map_some, head_eq_self]
    intro other hother heq
    rcases List.mem_cons.mp hother with rfl | hmem
    · omega
    have hle := hlog.first_le hmem
    have hlt := hjoins.below other hmem
    omega
  rw [if_neg hkey]
  by_cases hheld : key ∈ view.keys start
  · rw [if_pos hheld]
    unfold locate holder
    rw [List.find?_cons_of_neg (by simpa using hkey)]
    have hfound := hlog.holder_eq hstart htracked hheld
    unfold holder at hfound
    rw [hfound, Option.map_some, head_cons_of_eq hpos.symm]
  rw [if_neg hheld]
  exact hjoins.locate_cons_of_notMem hlog hkey (fun _ _ => hheld) (.inr ⟨hstart, hpos⟩)

end Joins

end Amberchain.LinkedLog
