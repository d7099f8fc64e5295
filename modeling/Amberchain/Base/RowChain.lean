import Mathlib.Data.Nat.Find
import Mathlib.Order.Basic
import Mathlib.Tactic.Common

/-!
# Key chains in an append-only log

A log numbers its rows `1, 2, …` and gives each row a key.  Row `0` never
exists, so `0` stands for "no row".  `lastRow key k n` is the newest row before
`n` that carries `k`.  A log in which every row remembers the newest earlier row
of its own key can be read backwards one key at a time: that is what an index
over the log, its rollback, and a lookup in the past all rest on.
-/

namespace Amberchain.RowChain

variable {κ : Type*} [DecidableEq κ]

/-- The newest row in `[1, n)` that carries key `k`, or `0`. -/
def lastRow (key : ℕ → κ) (k : κ) : ℕ → ℕ
  | 0 => 0
  | n + 1 => if 0 < n ∧ key n = k then n else lastRow key k n

@[simp]
theorem lastRow_zero (key : ℕ → κ) (k : κ) : lastRow key k 0 = 0 :=
  rfl

@[simp]
theorem lastRow_one (key : ℕ → κ) (k : κ) : lastRow key k 1 = 0 := by
  simp [lastRow]

variable {k : κ} {n : ℕ} {key : ℕ → κ}

theorem lastRow_succ_of_eq (hpos : 0 < n) (hkey : key n = k) : lastRow key k (n + 1) = n := by
  simp [lastRow, hpos, hkey]

theorem lastRow_succ_of_ne (hkey : key n ≠ k) : lastRow key k (n + 1) = lastRow key k n := by
  simp [lastRow, hkey]

theorem lastRow_le_pred (key : ℕ → κ) (k : κ) (n : ℕ) : lastRow key k n ≤ n - 1 := by
  induction n with
  | zero => simp
  | succ n ih =>
    by_cases hlast : 0 < n ∧ key n = k
    · simp [lastRow, hlast]
    simp only [lastRow, if_neg hlast]
    omega

theorem lastRow_lt (hrow : lastRow key k n ≠ 0) : lastRow key k n < n := by
  have hle := lastRow_le_pred key k n
  omega

theorem lastRow_le (key : ℕ → κ) (k : κ) (n : ℕ) : lastRow key k n ≤ n :=
  (lastRow_le_pred key k n).trans (Nat.sub_le n 1)

theorem key_lastRow (hrow : lastRow key k n ≠ 0) : key (lastRow key k n) = k := by
  induction n with
  | zero => simp at hrow
  | succ n ih =>
    by_cases hlast : 0 < n ∧ key n = k
    · rw [lastRow, if_pos hlast]
      exact hlast.2
    simp only [lastRow, if_neg hlast] at hrow ⊢
    exact ih hrow

theorem le_lastRow {key : ℕ → κ} {k : κ} {n i : ℕ} (hpos : 0 < i) (hlt : i < n) (hkey : key i = k) :
    i ≤ lastRow key k n := by
  induction n with
  | zero => omega
  | succ n ih =>
    by_cases hlast : 0 < n ∧ key n = k
    · simp only [lastRow, if_pos hlast]
      omega
    simp only [lastRow, if_neg hlast]
    refine ih ?_
    by_contra hnot
    have heq : i = n := by omega
    exact hlast ⟨heq ▸ hpos, heq ▸ hkey⟩

theorem lastRow_congr {key key' : ℕ → κ} (k : κ) (hkeys : ∀ i, 0 < i → i < n → key i = key' i) :
    lastRow key k n = lastRow key' k n := by
  induction n with
  | zero => rfl
  | succ n ih =>
    have hinit := ih fun i hpos hlt => hkeys i hpos (by omega)
    by_cases hpos : 0 < n
    · simp only [lastRow, hkeys n hpos (by omega), hinit]
    simp [lastRow, hpos, hinit]

/-- Cutting the log anywhere above its newest row of `k` keeps that row. -/
theorem lastRow_eq_of_lt_of_le {m n : ℕ} (hlt : lastRow key k n < m) (hle : m ≤ n) :
    lastRow key k m = lastRow key k n := by
  by_cases hzero : lastRow key k n = 0
  · by_contra hne
    have hrow : lastRow key k m ≠ 0 := by omega
    have hbound := le_lastRow (n := n) (Nat.pos_of_ne_zero hrow)
      ((lastRow_lt hrow).trans_le hle) (key_lastRow hrow)
    omega
  have hlower := le_lastRow (n := m) (Nat.pos_of_ne_zero hzero) hlt (key_lastRow hzero)
  by_cases hm : lastRow key k m = 0
  · omega
  have hupper := le_lastRow (n := n) (Nat.pos_of_ne_zero hm)
    ((lastRow_lt hm).trans_le hle) (key_lastRow hm)
  omega

theorem lastRow_mono {m n : ℕ} (hle : m ≤ n) : lastRow key k m ≤ lastRow key k n := by
  by_cases hzero : lastRow key k m = 0
  · omega
  exact le_lastRow (Nat.pos_of_ne_zero hzero) ((lastRow_lt hzero).trans_le hle) (key_lastRow hzero)

theorem exists_next {c n : ℕ} (hkey : c ≠ 0 → key c = k) (hlt : c < lastRow key k n) :
    ∃ i, c < i ∧ i ≤ lastRow key k n ∧ key i = k ∧ lastRow key k i = c := by
  have hrow : lastRow key k n ≠ 0 := by omega
  have hex : ∃ i, c < i ∧ key i = k := ⟨_, hlt, key_lastRow hrow⟩
  classical
  obtain ⟨hafter, hkeyi⟩ := Nat.find_spec hex
  refine ⟨Nat.find hex, hafter, Nat.find_le ⟨hlt, key_lastRow hrow⟩, hkeyi, ?_⟩
  apply le_antisymm
  · -- a newer row between the two would have been found first
    by_contra hnot
    have hmid : lastRow key k (Nat.find hex) ≠ 0 := by omega
    exact Nat.find_min hex (lastRow_lt hmid) ⟨by omega, key_lastRow hmid⟩
  by_cases hzero : c = 0
  · omega
  exact le_lastRow (Nat.pos_of_ne_zero hzero) hafter (hkey hzero)

/-- What an index over the rows before `n` holds for `k`: the value of its
newest row, if it has one. -/
def indexAt {ν : Type*} (key : ℕ → κ) (value : ℕ → ν) (k : κ) (n : ℕ) : Option ν :=
  if lastRow key k n = 0 then none else some (value (lastRow key k n))

theorem indexAt_succ_of_ne {ν : Type*} (value : ℕ → ν) (hkey : key n ≠ k) :
    indexAt key value k (n + 1) = indexAt key value k n := by
  simp [indexAt, lastRow_succ_of_ne hkey]

/-- The index depends only on the rows before the end. -/
theorem indexAt_congr {ν : Type*} {key key' : ℕ → κ} {value value' : ℕ → ν}
    (k : κ) (hkeys : ∀ i, 0 < i → i < n → key i = key' i)
    (hvalues : ∀ i, 0 < i → i < n → value i = value' i) :
    indexAt key value k n = indexAt key' value' k n := by
  unfold indexAt
  rw [← lastRow_congr k hkeys]
  by_cases hzero : lastRow key k n = 0
  · simp [hzero]
  simp [hzero, hvalues _ (Nat.pos_of_ne_zero hzero) (lastRow_lt hzero)]

/-- Every row of `k` before `n` links to the newest earlier row of `k`. -/
def LinkedAt (key : ℕ → κ) (prev : ℕ → ℕ) (k : κ) (n : ℕ) : Prop :=
  ∀ i, 0 < i → i < n → key i = k → prev i = lastRow key k i

variable {prev : ℕ → ℕ}

theorem LinkedAt.mono {m n : ℕ} (hlinked : LinkedAt key prev k n) (hle : m ≤ n) :
    LinkedAt key prev k m :=
  fun i hpos hlt hkey => hlinked i hpos (by omega) hkey

theorem LinkedAt.congr {key key' : ℕ → κ} {prev prev' : ℕ → ℕ} {k : κ} {n : ℕ}
    (hlinked : LinkedAt key prev k n) (hkeys : ∀ i, 0 < i → i < n → key i = key' i)
    (hprevs : ∀ i, 0 < i → i < n → prev i = prev' i) : LinkedAt key' prev' k n := by
  intro i hpos hlt hkey
  rw [← hprevs i hpos hlt, hlinked i hpos hlt ((hkeys i hpos hlt).trans hkey)]
  exact lastRow_congr k fun j hj hlt' => hkeys j hj (by omega)

theorem LinkedAt.succ (hlinked : LinkedAt key prev k n)
    (hrow : key n = k → prev n = lastRow key k n) : LinkedAt key prev k (n + 1) := by
  intro i hpos hlt hkey
  rcases Nat.lt_succ_iff_lt_or_eq.mp hlt with hbefore | rfl
  · exact hlinked i hpos hbefore hkey
  exact hrow hkey

theorem indexAt_of_linkedAt {ν : Type*} (value : ℕ → ν) (hpos : 0 < n)
    (hlinked : LinkedAt key prev (key n) (n + 1)) : indexAt key value (key n) n =
      if prev n = 0 then none else some (value (prev n)) := by
  rw [indexAt, hlinked n hpos (by omega) rfl]

/-- Follow the links from row `i` while the row is past the bound and links
further. -/
def walkBack (prev : ℕ → ℕ) (past : ℕ → Bool) : ℕ → ℕ → ℕ
  | 0, i => i
  | fuel + 1, i =>
    if 0 < prev i ∧ past i then walkBack prev past fuel (prev i) else i

/-- Walking back from the newest row of `k` ends at the newest row of `k` below
the cut, or at a row past it when the cut leaves no row of `k`. -/
theorem walkBack_lastRow {past : ℕ → Bool} {cut n : ℕ} (hlinked : LinkedAt key prev k n)
    (hpast : ∀ i, 0 < i → i < n → (past i = true ↔ cut ≤ i)) :
    ∀ fuel i, i ≤ fuel → 0 < i → i < n → key i = k →
      lastRow key k cut = lastRow key k (min cut (i + 1)) →
      let last := walkBack prev past fuel i
      (lastRow key k cut ≠ 0 → last = lastRow key k cut ∧ past last = false) ∧
      (lastRow key k cut = 0 → past last = true) := by
  intro fuel
  induction fuel with
  | zero => intro i hle hpos; omega
  | succ fuel ih =>
    intro i hle hpos hlt hkey hmin
    have hprev := hlinked i hpos hlt hkey
    by_cases hbelow : i < cut
    · -- the row survives the cut, so it is the newest one below it
      have hnot : past i = false := by
        rw [Bool.eq_false_iff, Ne, hpast i hpos hlt]
        omega
      have hlast : lastRow key k cut = i := by
        rw [hmin, min_eq_right (by omega)]
        exact lastRow_succ_of_eq hpos hkey
      simp [walkBack, hnot, hlast, hpos.ne']
    have hover : past i = true := (hpast i hpos hlt).mpr (by omega)
    have hcutprev : lastRow key k cut = lastRow key k (min cut (prev i + 1)) := by
      by_cases hle' : cut ≤ prev i + 1
      · rw [min_eq_left hle']
      rw [min_eq_right (by omega)]
      have hmid : lastRow key k cut = lastRow key k i :=
        lastRow_eq_of_lt_of_le (by omega) (by omega)
      by_cases hzero : prev i = 0
      · simp only [hzero, Nat.zero_add, lastRow_one]
        omega
      rw [hmid, ← hprev, lastRow_succ_of_eq (Nat.pos_of_ne_zero hzero)]
      rw [hprev] at hzero ⊢
      exact key_lastRow hzero
    by_cases hzero : prev i = 0
    · have hnone : lastRow key k cut = 0 := by
        rw [hcutprev, hzero]
        rcases Nat.lt_or_ge cut 1 with h | h
        · simp [Nat.lt_one_iff.mp h]
        · simp [min_eq_right h]
      simp [walkBack, hzero, hover, hnone]
    have hrow : lastRow key k i ≠ 0 := hprev ▸ hzero
    have hlower : prev i < i := hprev ▸ lastRow_lt hrow
    have hstep : walkBack prev past (fuel + 1) i =
        walkBack prev past fuel (prev i) := by
      simp [walkBack, hover, Nat.pos_of_ne_zero hzero]
    rw [hstep]
    exact ih (prev i) (by omega) (Nat.pos_of_ne_zero hzero) (by omega)
      (hprev ▸ key_lastRow hrow) hcutprev

/-- Search down from row `i` for the end of the rows that are not `over`. -/
def cutAbove (beyond : ℕ → Bool) : ℕ → ℕ
  | 0 => 1
  | i + 1 => if beyond (i + 1) then cutAbove beyond i else i + 2

theorem over_of_cutAbove_le {beyond : ℕ → Bool} {n i : ℕ} (hcut : cutAbove beyond n ≤ i)
    (hle : i ≤ n) : beyond i = true := by
  induction n with
  | zero =>
    have hpos : cutAbove beyond 0 = 1 := rfl
    omega
  | succ n ih =>
    by_cases hlast : beyond (n + 1) = true
    · by_cases heq : i = n + 1
      · rw [heq]
        exact hlast
      simp only [cutAbove, hlast, if_true] at hcut
      exact ih hcut (by omega)
    simp only [cutAbove, hlast] at hcut
    simp only [Bool.false_eq_true, if_false] at hcut
    omega

/-- The search finds a cut that separates the rows beyond the height from the
rows under it. -/
theorem cutAbove_eq {beyond : ℕ → Bool} {cut : ℕ} (hpos : 0 < cut)
    (hunder : cut ≠ 1 → beyond (cut - 1) = false) :
    ∀ i, cut ≤ i + 1 → (∀ j, cut ≤ j → j ≤ i → beyond j = true) → cutAbove beyond i = cut := by
  intro i
  induction i with
  | zero =>
    intro hle _
    simp only [cutAbove]
    omega
  | succ i ih =>
    intro hle hover
    by_cases hlast : cut = i + 2
    · have hnot : beyond (i + 1) = false := by
        simpa [hlast] using hunder (by omega)
      simp [cutAbove, hnot, hlast]
    have hrow : beyond (i + 1) = true := hover (i + 1) (by omega) le_rfl
    simp only [cutAbove, hrow, if_true]
    exact ih (by omega) fun j hcut hj => hover j hcut (by omega)

end Amberchain.RowChain
