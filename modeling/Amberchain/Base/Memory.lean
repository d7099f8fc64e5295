import Mathlib.Algebra.Order.Group.Int
import Mathlib.Data.List.Basic

/-!
# Buffers with checked accesses

A buffer is the list of its cells.  Offsets are integers, so an access before the first cell
or behind the last one is an access that fails.
-/

namespace Amberchain.Memory

variable {α : Type*}

def write (memory : List α) (offset : ℤ) (block : List α) : Option (List α) :=
  if 0 ≤ offset ∧ offset + block.length ≤ memory.length then
    some (memory.take offset.toNat ++ block ++ memory.drop (offset.toNat + block.length))
  else none

def read (memory : List α) (offset size : ℤ) : Option (List α) :=
  if 0 ≤ offset ∧ 0 ≤ size ∧ offset + size ≤ memory.length then
    some ((memory.drop offset.toNat).take size.toNat)
  else none

/-- The cells from an offset up to a terminator, which must lie in the buffer too. -/
def readUntil [DecidableEq α] (last : α) (memory : List α) (offset : ℤ) : Option (List α) :=
  if 0 ≤ offset ∧ last ∈ memory.drop offset.toNat then
    some ((memory.drop offset.toNat).takeWhile (· ≠ last))
  else none

theorem write_over {start block old rest : List α} {offset : ℤ} (hoffset : offset = start.length)
    (hlength : block.length = old.length) :
    write (start ++ (old ++ rest)) offset block = some (start ++ (block ++ rest)) := by
  subst hoffset
  have hfits : (0 : ℤ) ≤ (start.length : ℤ) ∧
      (start.length : ℤ) + block.length ≤ ((start ++ (old ++ rest)).length : ℤ) := by
    simp only [List.length_append]
    omega
  have hbehind : (start ++ (old ++ rest)).drop (start.length + block.length) = rest := by
    rw [← List.drop_drop, List.drop_left, hlength, List.drop_left]
  rw [write, if_pos hfits, Int.toNat_natCast, List.take_left, hbehind, List.append_assoc]

theorem write_eq_none {memory block : List α} {offset : ℤ}
    (hbehind : (memory.length : ℤ) < offset + block.length) : write memory offset block = none := by
  rw [write, if_neg]
  omega

theorem length_write {memory block written : List α} {offset : ℤ}
    (hwrite : write memory offset block = some written) : written.length = memory.length := by
  rw [write] at hwrite
  split at hwrite
  next hfits =>
    cases hwrite
    simp only [List.length_append, List.length_take, List.length_drop]
    omega
  next => cases hwrite

theorem read_of_append {start : List α} (block rest : List α) :
    read (start ++ (block ++ rest)) start.length block.length = some block := by
  have hfits : (0 : ℤ) ≤ (start.length : ℤ) ∧ (0 : ℤ) ≤ (block.length : ℤ) ∧
      (start.length : ℤ) + block.length ≤ ((start ++ (block ++ rest)).length : ℤ) := by
    simp only [List.length_append]
    omega
  rw [read, if_pos hfits, Int.toNat_natCast, Int.toNat_natCast, List.drop_left, List.take_left]

theorem read_drop {memory : List α} {offset size : ℕ} (hfits : offset + size ≤ memory.length) :
    read memory offset size = some ((memory.drop offset).take size) := by
  have hfits : (0 : ℤ) ≤ (offset : ℤ) ∧ (0 : ℤ) ≤ (size : ℤ) ∧
      (offset : ℤ) + size ≤ (memory.length : ℤ) := by
    omega
  rw [read, if_pos hfits, Int.toNat_natCast, Int.toNat_natCast]

section Terminated

variable [DecidableEq α] {last : α}

theorem readUntil_drop {memory : List α} {offset : ℕ} (hlast : last ∈ memory.drop offset) :
    readUntil last memory offset = some ((memory.drop offset).takeWhile (· ≠ last)) := by
  rw [readUntil, if_pos ⟨Int.natCast_nonneg offset, hlast⟩, Int.toNat_natCast]

theorem readUntil_eq_none {memory : List α} {offset : ℕ} (hlast : last ∉ memory.drop offset) :
    readUntil last memory offset = none := by
  rw [readUntil, if_neg]
  rintro ⟨-, hmem⟩
  exact hlast hmem

/-- A terminated string is its cells, the terminator and what follows. -/
theorem takeWhile_append_last {list : List α} (hlast : last ∈ list) :
    list.takeWhile (· ≠ last) ++ last :: list.drop ((list.takeWhile (· ≠ last)).length + 1)
      = list := by
  induction list with
  | nil => cases hlast
  | cons first rest ih =>
    by_cases hfirst : first = last
    · subst hfirst
      simp
    have hrest : last ∈ rest := by
      cases hlast with
      | head => exact absurd rfl hfirst
      | tail _ hmem => exact hmem
    have hkept : (first :: rest).takeWhile (· ≠ last)
        = first :: rest.takeWhile (· ≠ last) := by
      simp [hfirst]
    rw [hkept, List.cons_append, List.length_cons, List.drop_succ_cons, ih hrest]

theorem takeWhile_terminated {name : List α} (hname : last ∉ name) (rest : List α) :
    (name ++ last :: rest).takeWhile (· ≠ last) = name := by
  have hall : ∀ cell ∈ name, decide (cell ≠ last) = true := by
    intro cell hmem
    refine decide_eq_true fun heq => hname ?_
    rwa [← heq]
  rw [List.takeWhile_append_of_pos hall, List.takeWhile_cons_of_neg (by simp), List.append_nil]

end Terminated

end Amberchain.Memory
