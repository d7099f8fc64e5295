import Amberchain.Entity.Commit
import Mathlib.Data.List.Infix

/-!
# The live part of the entity ledger

The ledger file holds more than it means: rows of abandoned blocks stay behind
the live ones.  The live rows hang together by their previous positions, and they
are what the position in a header stands for.
-/

namespace Amberchain.Entity

theorem EntityRow.le_size (row : EntityRow) : ledgerTotalSize ≤ row.size := by
  unfold EntityRow.size ledgerTotalSize
  omega

theorem EntityRow.size_pos (row : EntityRow) : 0 < row.size :=
  Int.lt_of_lt_of_le (by decide) row.le_size

structure Placed where
  pos : ℤ
  row : EntityRow

/-- The live rows of a ledger, the newest first. -/
abbrev Log :=
  List Placed

namespace Log

/-- The position of the newest row. -/
def lastPos : Log → ℤ
  | [] => 0
  | entry :: _ => entry.pos

/-- The position behind the newest row. -/
def endPos : Log → ℤ
  | [] => ledgerTotalSize
  | entry :: _ => entry.pos + entry.row.size

@[simp]
theorem lastPos_cons (entry : Placed) (older : Log) : lastPos (entry :: older) = entry.pos :=
  rfl

@[simp]
theorem endPos_cons (entry : Placed) (older : Log) :
    endPos (entry :: older) = entry.pos + entry.row.size :=
  rfl

end Log

/-- The ledger holds the rows of the log, each behind the one before. -/
inductive Chained (ledger : EntityLedger) : Log → Prop where
  | nil : Chained ledger []
  | cons {entry : Placed} {older : Log} (hrow : ledger.row entry.pos = some entry.row)
      (hprev : entry.row.prevPos = older.lastPos) (hfree : older.endPos ≤ entry.pos)
      (hblock : ∀ before ∈ older, before.row.block ≤ entry.row.block)
      (holder : Chained ledger older) : Chained ledger (entry :: older)

namespace Chained

variable {ledger other : EntityLedger} {log live : Log}

section

variable (hlog : Chained ledger log)

include hlog

theorem endPos_pos : ledgerTotalSize ≤ log.endPos := by
  induction hlog with
  | nil => exact Int.le_refl _
  | @cons entry older hrow hprev hfree hblock holder ih =>
    have hsize := entry.row.le_size
    unfold ledgerTotalSize at hsize ih ⊢
    show 96 ≤ entry.pos + entry.row.size
    omega

theorem of_suffix (hlive : live <:+ log) : Chained ledger live := by
  induction hlog with
  | nil =>
    rw [List.suffix_nil.mp hlive]
    exact .nil
  | @cons entry older hrow hprev hfree hblock holder ih =>
    rcases List.suffix_cons_iff.mp hlive with heq | hsuffix
    · rw [heq]
      exact .cons hrow hprev hfree hblock holder
    exact ih hsuffix

theorem bounds {entry : Placed} (hentry : entry ∈ log) :
    ledgerTotalSize ≤ entry.pos ∧ entry.pos + entry.row.size ≤ log.endPos := by
  induction hlog with
  | nil => cases hentry
  | @cons newest older hrow hprev hfree hblock holder ih =>
    have hend := holder.endPos_pos
    have hsize := newest.row.le_size
    unfold ledgerTotalSize at *
    rcases List.mem_cons.mp hentry with rfl | hmem
    · exact ⟨Int.le_trans hend hfree, Int.le_refl _⟩
    obtain ⟨hlow, hhigh⟩ := ih hmem
    refine ⟨hlow, ?_⟩
    show _ ≤ newest.pos + newest.row.size
    omega

theorem row_eq {entry : Placed} (hentry : entry ∈ log) :
    ledger.row entry.pos = some entry.row := by
  induction hlog with
  | nil => cases hentry
  | cons hrow hprev hfree hblock holder ih =>
    rcases List.mem_cons.mp hentry with rfl | hmem
    · exact hrow
    exact ih hmem

theorem getRow_eq {entry : Placed} (hentry : entry ∈ log) :
    ledger.getRow entry.pos = entry.row := by
  unfold EntityLedger.getRow
  rw [hlog.row_eq hentry]
  rfl

theorem pos_pos {entry : Placed} (hentry : entry ∈ log) :
    0 < entry.pos :=
  Int.lt_of_lt_of_le (by decide) (hlog.bounds hentry).1

theorem pos_lt_endPos {entry : Placed} (hentry : entry ∈ log) :
    entry.pos < log.endPos :=
  Int.lt_of_lt_of_le (Int.lt_add_of_pos_right _ entry.row.size_pos) (hlog.bounds hentry).2

end

theorem pos_lt {entry before : Placed} {older : Log} (hlog : Chained ledger (entry :: older))
    (hbefore : before ∈ older) : before.pos < entry.pos := by
  cases hlog with
  | cons hrow hprev hfree hblock holder =>
    exact Int.lt_of_lt_of_le (holder.pos_lt_endPos hbefore) hfree

section

variable (hlog : Chained ledger log)

include hlog

theorem behind_lastPos : ledger.behind log.lastPos = log.endPos := by
  cases hlog with
  | nil => rfl
  | @cons entry older hrow hprev hfree hblock holder =>
    have hend := holder.endPos_pos
    have hpos : entry.pos ≠ 0 := by
      unfold ledgerTotalSize at hend
      omega
    show ledger.behind entry.pos = entry.pos + entry.row.size
    unfold EntityLedger.behind EntityLedger.getRow
    rw [if_neg hpos, hrow]
    rfl

theorem readable :
    log.lastPos = 0 ∨ (ledger.row log.lastPos).isSome := by
  cases hlog with
  | nil => exact .inl rfl
  | @cons entry older hrow hprev hfree hblock holder =>
    refine .inr ?_
    show (ledger.row entry.pos).isSome
    rw [hrow]
    rfl

/-- What is written behind the log leaves it as it is. -/
theorem setRow {pos : ℤ} (hfree : log.endPos ≤ pos)
    (row : EntityRow) : Chained (ledger.setRow pos row) log := by
  induction hlog with
  | nil => exact .nil
  | @cons entry older hrow hprev hbehind hblock holder ih =>
    have hsize := entry.row.size_pos
    have hend : entry.pos + entry.row.size ≤ pos := hfree
    refine .cons ?_ hprev hbehind hblock (ih (by omega))
    have hne : entry.pos ≠ pos := by omega
    simp only [EntityLedger.setRow, if_neg hne, hrow, Option.filter]
    rw [if_pos]
    exact decide_eq_true (by omega)

theorem of_row_eq (hsame : other.row = ledger.row) :
    Chained other log := by
  induction hlog with
  | nil => exact .nil
  | cons hrow hprev hfree hblock holder ih =>
    exact .cons (hsame ▸ hrow) hprev hfree hblock ih

theorem append {pos : ℤ} (hfree : log.endPos ≤ pos)
    {row : EntityRow} (hprev : row.prevPos = log.lastPos)
    (hblock : ∀ before ∈ log, before.row.block ≤ row.block) :
    Chained (ledger.setRow pos row) (⟨pos, row⟩ :: log) :=
  .cons (if_pos rfl) hprev hfree hblock (hlog.setRow hfree row)

/-- An older end of the log lies further down, unless it is the same one. -/
theorem endPos_le (hlive : live <:+ log) :
    live.endPos ≤ log.endPos ∧ (live.endPos = log.endPos → live = log) := by
  induction hlog with
  | nil =>
    rw [List.suffix_nil.mp hlive]
    exact ⟨Int.le_refl _, fun _ => rfl⟩
  | @cons entry older hrow hprev hfree hblock holder ih =>
    rcases List.suffix_cons_iff.mp hlive with heq | hsuffix
    · exact ⟨Int.le_of_eq (by rw [heq]), fun _ => heq⟩
    have hsize := entry.row.size_pos
    have hend : Log.endPos (entry :: older) = entry.pos + entry.row.size := rfl
    have hle := (ih hsuffix).1
    exact ⟨by omega, fun heq => by omega⟩

theorem eq_of_lastPos (hlive : live <:+ log)
    (hlast : live.lastPos = log.lastPos) : live = log := by
  refine (hlog.endPos_le hlive).2 ?_
  rw [← (hlog.of_suffix hlive).behind_lastPos, ← hlog.behind_lastPos, hlast]

end

end Chained

end Amberchain.Entity
