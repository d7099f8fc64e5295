import Mathlib.Data.Option.Basic
import Mathlib.Tactic.Common

/-!
# A store with a write batch

Puts and deletions collect in a batch, and a commit brings the batch to the store.
A read sees the store only: what is in the batch is invisible until the commit.
-/

namespace Amberchain

structure Batched (Key Value : Type*) where
  stored : Key → Option Value
  batch : Key → Option (Option Value)

namespace Batched

variable {Key Value : Type*}

def empty : Batched Key Value :=
  ⟨fun _ => none, fun _ => none⟩

section Operations

variable (store : Batched Key Value)

def read (key : Key) : Option Value :=
  store.stored key

def put [DecidableEq Key] (key : Key) (value : Value) : Batched Key Value :=
  { store with batch := Function.update store.batch key (some (some value)) }

def delete [DecidableEq Key] (key : Key) : Batched Key Value :=
  { store with batch := Function.update store.batch key (some none) }

def putAll (table : Key → Option Value) : Batched Key Value :=
  { store with batch := fun key => ((table key).map some).or (store.batch key) }

/-- What a read will see after a commit. -/
def latest (key : Key) : Option Value :=
  (store.batch key).getD (store.stored key)

def commit : Batched Key Value :=
  ⟨store.latest, fun _ => none⟩

/-- Nothing waits for a commit. -/
def Settled : Prop :=
  ∀ key, store.batch key = none

end Operations

variable {store : Batched Key Value}

@[simp]
theorem read_commit (key : Key) : store.commit.read key = store.latest key :=
  rfl

theorem settled_commit : store.commit.Settled :=
  fun _ => rfl

@[simp]
theorem latest_put_self [DecidableEq Key] (key : Key) (value : Value) :
    (store.put key value).latest key = some value := by
  simp [latest, put]

theorem latest_put_of_ne [DecidableEq Key] {key other : Key} (value : Value)
    (hother : other ≠ key) : (store.put key value).latest other = store.latest other := by
  simp [latest, put, Function.update_of_ne hother]

@[simp]
theorem latest_delete_self [DecidableEq Key] (key : Key) :
    (store.delete key).latest key = none := by
  simp [latest, delete]

theorem latest_delete_of_ne [DecidableEq Key] {key other : Key} (hother : other ≠ key) :
    (store.delete key).latest other = store.latest other := by
  simp [latest, delete, Function.update_of_ne hother]

theorem latest_putAll (table : Key → Option Value) (key : Key) :
    (store.putAll table).latest key = (table key).or (store.latest key) := by
  cases htable : table key <;> simp [latest, putAll, htable]

theorem latest_of_settled (hsettled : store.Settled) (key : Key) :
    store.latest key = store.read key := by
  simp [latest, read, hsettled key]

def putList [DecidableEq Key] (store : Batched Key Value) (writes : List (Key × Value)) :
    Batched Key Value :=
  writes.foldl (fun store write => store.put write.1 write.2) store

@[simp]
theorem read_putList [DecidableEq Key] (writes : List (Key × Value)) (key : Key) :
    (store.putList writes).read key = store.read key := by
  induction writes generalizing store with
  | nil => rfl
  | cons write writes ih =>
    have hrest := @ih (store.put write.1 write.2)
    exact hrest

theorem latest_putList [DecidableEq Key] (writes : List (Key × Value)) (key : Key) :
    (key ∉ writes.map Prod.fst ∧ (store.putList writes).latest key = store.latest key)
      ∨ ∃ value, (key, value) ∈ writes ∧ (store.putList writes).latest key = some value := by
  induction writes generalizing store with
  | nil => exact .inl ⟨List.not_mem_nil, rfl⟩
  | cons write writes ih =>
    rcases @ih (store.put write.1 write.2) with ⟨hkey, hlatest⟩ | ⟨value, hvalue, hlatest⟩
    · by_cases hsame : key = write.1
      · right
        refine ⟨write.2, by rw [hsame]; exact .head _, ?_⟩
        rw [hsame, latest_put_self] at hlatest
        rw [hsame]
        exact hlatest
      left
      rw [latest_put_of_ne _ hsame] at hlatest
      rw [List.map_cons, List.mem_cons, not_or]
      exact ⟨⟨hsame, hkey⟩, hlatest⟩
    exact .inr ⟨value, List.mem_cons_of_mem _ hvalue, hlatest⟩

@[simp]
theorem read_foldl_delete [DecidableEq Key] {Item : Type*} (keyOf : Item → Key)
    (items : List Item) (store : Batched Key Value) (key : Key) :
    (items.foldl (fun store item => store.delete (keyOf item)) store).read key =
      store.read key := by
  induction items generalizing store with
  | nil => rfl
  | cons item items ih => exact ih (store.delete (keyOf item))

theorem latest_foldl_delete_of_ne [DecidableEq Key] {Item : Type*} (keyOf : Item → Key)
    {items : List Item} (store : Batched Key Value) {key : Key}
    (hkey : ∀ item ∈ items, keyOf item ≠ key) :
    (items.foldl (fun store item => store.delete (keyOf item)) store).latest key =
      store.latest key := by
  induction items generalizing store with
  | nil => rfl
  | cons item items ih =>
    rw [List.foldl_cons, ih _ fun other hother => hkey other (.tail _ hother),
      latest_delete_of_ne (hkey item (.head _)).symm]

theorem latest_foldl_delete [DecidableEq Key] {Item : Type*} (keyOf : Item → Key)
    {items : List Item} (store : Batched Key Value) {key : Key}
    (hkey : ∃ item ∈ items, keyOf item = key) :
    (items.foldl (fun store item => store.delete (keyOf item)) store).latest key = none := by
  induction items generalizing store with
  | nil => simp at hkey
  | cons item items ih =>
    rw [List.foldl_cons]
    by_cases hlater : ∃ other ∈ items, keyOf other = key
    · exact ih _ hlater
    push Not at hlater
    obtain ⟨other, hother, hsame⟩ := hkey
    rcases List.mem_cons.mp hother with rfl | hmem
    · rw [latest_foldl_delete_of_ne keyOf _ hlater, hsame, latest_delete_self]
    exact (hlater other hmem hsame).elim

theorem commit_of_settled (hsettled : store.Settled) : store.commit = store := by
  obtain ⟨stored, batch⟩ := store
  have hbatch : batch = fun _ => none := funext hsettled
  subst hbatch
  rfl

end Batched

end Amberchain
