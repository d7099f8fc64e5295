import Amberchain.Wallet.ListSteps

/-!
# Committing lists

`Commit` writes each row that waits to its place, and behind an anchor the new count to the
first row of the list.  The lists stay exact, with all their rows confirmed.
-/

namespace Amberchain.Wallet

/-- A row directly after an anchor; the flag says that the row before the list is one. -/
inductive FirstRow : Bool → List TxEntityRow → TxEntityRow → Prop
  | here {row : TxEntityRow} {rest : List TxEntityRow} (hrow : TxDB.isAnchor row = false) :
      FirstRow true (row :: rest) row
  | later {anchor : Bool} {row first : TxEntityRow} {rest : List TxEntityRow}
      (hfirst : FirstRow (TxDB.isAnchor row) rest first) : FirstRow anchor (row :: rest) first

namespace FirstRow

theorem of_split {opening first : TxEntityRow} {after : List TxEntityRow}
    (hopening : TxDB.isAnchor opening = true) (hfirst : TxDB.isAnchor first = false) :
    ∀ {before : List TxEntityRow} {anchor : Bool},
      FirstRow anchor (before ++ opening :: first :: after) first
  | [], _ => .later (by rw [hopening]; exact .here hfirst)
  | _ :: _, _ => .later (of_split hopening hfirst)

end FirstRow

theorem Chunked.of_firstRow {pool : List TxEntityRow} {first : TxEntityRow}
    (hpool : Chunked pool) (hfirst : FirstRow false pool first) :
    ∃ before anchor after, pool = before ++ anchor :: first :: after
      ∧ TxDB.isAnchor anchor = true ∧ first.entity = anchor.entity := by
  induction hpool with
  | nil => cases hfirst
  | @row row rest hrow _ ih =>
    cases hfirst with
    | later hfirst =>
      rw [hrow] at hfirst
      obtain ⟨before, anchor, after, rfl, hanchor⟩ := ih hfirst
      exact ⟨row :: before, anchor, after, rfl, hanchor⟩
  | @opened opening following rest hopening hfollowing hentity _ ih =>
    cases hfirst with
    | later hfirst =>
      rw [hopening] at hfirst
      cases hfirst with
      | here _ => exact ⟨[], opening, rest, rfl, hopening, hentity⟩
      | later hfirst =>
        rw [hfollowing] at hfirst
        obtain ⟨before, anchor, after, rfl, hanchor⟩ := ih hfirst
        exact ⟨opening :: following :: before, anchor, after, rfl, hanchor⟩

namespace TxDB

def rowWrites (read : RowKey → Option RowValue) (anchor : Bool) (row : TxEntityRow) :
    List (RowKey × RowValue) :=
  if isAnchor row then []
  else
    (if anchor ∧ 1 < row.tempPos then
      ((read ⟨row.entity, row.generation, 1⟩).map fun value =>
        ((⟨row.entity, row.generation, 1⟩ : RowKey),
          { value with lastSubKeyPos := row.lastSubKeyPos })).toList
    else []) ++ [((placed row).toRowKey, (placed row).toRowValue)]

/-- The puts of `commitRows`. -/
def commitWrites (read : RowKey → Option RowValue) :
    Bool → List TxEntityRow → List (RowKey × RowValue)
  | _, [] => []
  | anchor, row :: rest => rowWrites read anchor row ++ commitWrites read (isAnchor row) rest

section Writes

variable {read : RowKey → Option RowValue} {key : RowKey} {value : RowValue}

theorem mem_rowWrites {anchor : Bool} {row : TxEntityRow} :
    (key, value) ∈ rowWrites read anchor row ↔ isAnchor row = false
      ∧ ((key = (placed row).toRowKey ∧ value = (placed row).toRowValue)
        ∨ (anchor = true ∧ 1 < row.tempPos ∧ key = ⟨row.entity, row.generation, 1⟩
          ∧ ∃ old, read key = some old
            ∧ value = { old with lastSubKeyPos := row.lastSubKeyPos })) := by
  unfold rowWrites
  cases hrow : isAnchor row with
  | true => simp
  | false =>
    rw [if_neg Bool.false_ne_true, List.mem_append, List.mem_singleton, Prod.mk.injEq, or_comm]
    refine (and_iff_right rfl).symm.trans (and_congr_right fun _ => or_congr_right ?_)
    by_cases hcount : anchor = true ∧ 1 < row.tempPos
    · rw [if_pos hcount, Option.mem_toList, Option.map_eq_some_iff]
      constructor
      · rintro ⟨old, hold, hsame⟩
        obtain ⟨rfl, rfl⟩ := Prod.mk.inj hsame
        exact ⟨hcount.1, hcount.2, rfl, old, hold, rfl⟩
      rintro ⟨-, -, rfl, old, hold, rfl⟩
      exact ⟨old, hold, rfl⟩
    rw [if_neg hcount]
    constructor
    · intro hmem
      cases hmem
    rintro ⟨hanchor, hpos, -⟩
    exact (hcount ⟨hanchor, hpos⟩).elim

/-- A row on disk is put where a row waits, or gets the count of its list. -/
theorem mem_commitWrites : ∀ {pool : List TxEntityRow} {anchor : Bool},
    (key, value) ∈ commitWrites read anchor pool ↔
      (∃ row ∈ pool, isAnchor row = false ∧ key = (placed row).toRowKey
          ∧ value = (placed row).toRowValue)
        ∨ ∃ first, FirstRow anchor pool first ∧ 1 < first.tempPos
          ∧ key = ⟨first.entity, first.generation, 1⟩
          ∧ ∃ old, read key = some old ∧ value = { old with lastSubKeyPos := first.lastSubKeyPos }
  | [], anchor => by
    constructor
    · intro hmem
      cases hmem
    rintro (⟨row, hrow, -⟩ | ⟨first, hfirst, -⟩)
    · cases hrow
    · cases hfirst
  | row :: rest, anchor => by
    rw [commitWrites, List.mem_append, mem_rowWrites, mem_commitWrites]
    constructor
    · rintro (⟨hrow, ⟨hkey, hvalue⟩ | ⟨hanchor, hcount⟩⟩ | ⟨other, hother, hplace⟩ | ⟨first, hfirst, hcount⟩)
      · exact Or.inl ⟨row, List.mem_cons_self, hrow, hkey, hvalue⟩
      · rw [hanchor]
        exact Or.inr ⟨row, .here hrow, hcount⟩
      · exact Or.inl ⟨other, List.mem_cons_of_mem _ hother, hplace⟩
      · exact Or.inr ⟨first, .later hfirst, hcount⟩
    rintro (⟨other, hother, hplace⟩ | ⟨first, hfirst, hcount⟩)
    · rcases List.mem_cons.mp hother with rfl | hother
      · exact Or.inl ⟨hplace.1, Or.inl hplace.2⟩
      · exact Or.inr (Or.inl ⟨other, hother, hplace⟩)
    cases hfirst with
    | here hrow => exact Or.inl ⟨hrow, Or.inr ⟨rfl, hcount⟩⟩
    | later hfirst => exact Or.inr (Or.inr ⟨first, hfirst, hcount⟩)

end Writes

/-- When the first rows that are to be counted can be read, the loop of `Commit` puts. -/
theorem commitRows_eq : ∀ {pool : List TxEntityRow} {anchor : Bool} {rows : Batched RowKey RowValue},
    (∀ first, FirstRow anchor pool first → 1 < first.tempPos →
      rows.read ⟨first.entity, first.generation, 1⟩ ≠ none) →
    commitRows pool anchor rows = .ok (rows.putList (commitWrites rows.read anchor pool))
  | [], anchor, rows, hread => rfl
  | row :: rest, anchor, rows, hread => by
    have hone : commitRow rows anchor row = some (rows.putList (rowWrites rows.read anchor row)) := by
      unfold commitRow rowWrites
      cases hrow : isAnchor row with
      | true => rfl
      | false =>
        rw [if_neg Bool.false_ne_true, if_neg Bool.false_ne_true]
        by_cases hcount : anchor = true ∧ 1 < row.tempPos
        · obtain ⟨hanchor, hpos⟩ := hcount
          subst hanchor
          obtain ⟨value, hvalue⟩ := Option.ne_none_iff_exists'.mp (hread row (.here hrow) hpos)
          rw [if_pos ⟨rfl, hpos⟩, if_pos ⟨rfl, hpos⟩, recount, hvalue]
          rfl
        rw [if_neg hcount, if_neg hcount]
        rfl
    have hsame : (rows.putList (rowWrites rows.read anchor row)).read = rows.read :=
      funext fun key => Batched.read_putList _ key
    have hrest : commitRows rest (isAnchor row)
        (rows.putList (rowWrites rows.read anchor row)) =
          .ok ((rows.putList (rowWrites rows.read anchor row)).putList
            (commitWrites (rows.putList (rowWrites rows.read anchor row)).read (isAnchor row)
              rest)) := by
      refine commitRows_eq fun first hfirst hpos => ?_
      rw [hsame]
      exact hread first (.later hfirst) hpos
    rw [commitRows, hone]
    dsimp only
    rw [hrest, hsame, commitWrites, Batched.putList, Batched.putList, Batched.putList,
      List.foldl_append]

variable {chained : Prop} {db : TxDB} {entity : TxEntity} {confirmed size : ℤ}

theorem subKey_of_isAnchor {row : TxEntityRow} (hrow : isAnchor row = true) :
    row.entity.subKey = true := by
  rw [isAnchor, Bool.and_eq_true] at hrow
  exact hrow.1

/-- The row behind an anchor is the first of its list, and carries the size. -/
theorem ListExact.of_firstRow (hexact : db.Exact chained) {first : TxEntityRow}
    (hfirst : FirstRow false (db.memPools 0) first)
    (hstate : db.ListExact chained first.entity confirmed size) :
    first.entity.subKey = true ∧ first.tempPos = confirmed + 1 ∧ first.lastSubKeyPos = size
      ∧ first.generation = 0 := by
  obtain ⟨before, anchor, after, hpool, hanchor, hentity⟩ := hexact.chunked.of_firstRow hfirst
  have hsubKey : first.entity.subKey = true := by rw [hentity, subKey_of_isAnchor hanchor]
  have hgeneration : first.generation = 0 := by
    refine (hexact.keys first ?_).1
    rw [hpool]
    exact List.mem_append_right _ (.tail _ (.head _))
  have hrows : rowsOf (db.memPools 0) first.entity =
      rowsOf before first.entity ++ anchor :: first :: rowsOf after first.entity := by
    rw [hpool, rowsOf_append, rowsOf_cons_self hentity.symm, rowsOf_cons_self rfl]
  rcases hstate.opened hsubKey with hnone | ⟨opening, head, rest, hopened, hopening, -, hplain, hsize⟩
  · rw [hnone] at hrows
    cases hbefore : rowsOf before first.entity with
    | nil => rw [hbefore] at hrows; cases hrows
    | cons row rows => rw [hbefore] at hrows; cases hrows
  have hnumbered := hstate.numbered
  rw [waiting, hopened, List.filter_cons_of_neg (by simp [hopening]),
    List.filter_cons_of_pos (by simp [hplain head (.head _)])] at hnumbered
  rw [hopened] at hrows
  cases hbefore : rowsOf before first.entity with
  | nil =>
    rw [hbefore] at hrows
    obtain ⟨-, htail⟩ := List.cons.inj hrows
    obtain ⟨hhead, -⟩ := List.cons.inj htail
    rw [← hhead]
    exact ⟨by rw [hhead, hsubKey], hnumbered.1, hsize, by rw [hhead, hgeneration]⟩
  | cons row rows =>
    rw [hbefore] at hrows
    obtain ⟨-, htail⟩ := List.cons.inj hrows
    have hmem : anchor ∈ head :: rest := by
      rw [htail]
      exact List.mem_append_right _ (.head _)
    rw [hplain anchor hmem] at hanchor
    cases hanchor

def committedRows (db : TxDB) : Batched RowKey RowValue :=
  db.rows.putList (commitWrites db.rows.read false (db.memPools 0))

theorem commitRows_of_exact (hexact : db.Exact chained) :
    commitRows (db.memPools 0) false db.rows = .ok db.committedRows := by
  refine commitRows_eq fun first hfirst hpos => ?_
  obtain ⟨confirmed, size, hstate⟩ := hexact.lists first.entity
  obtain ⟨-, hplace, -, hgeneration⟩ := hstate.of_firstRow hexact hfirst
  rw [hgeneration, hstate.stored]
  omega

theorem placed_of_not_anchor {row : TxEntityRow} (hrow : isAnchor row = false) :
    placed row = { row with pos := row.tempPos, tempPos := 0 } := by
  rw [placed, if_neg (by rw [hrow]; decide)]

section

variable (hexact : db.Exact chained) (hstate : db.ListExact chained entity confirmed size)

include hexact hstate

theorem ListExact.of_mem_commitWrites {pos : ℤ} {value : RowValue}
    (hmem : (⟨entity, 0, pos⟩, value) ∈ commitWrites db.rows.read false (db.memPools 0)) :
    (∃ row ∈ waiting (db.memPools 0) entity, row.tempPos = pos
        ∧ value = { row.toRowValue with tempPos := 0 })
      ∨ (entity.subKey = true ∧ pos = 1 ∧ 1 ≤ confirmed ∧ ∃ old, db.rows.read ⟨entity, 0, pos⟩ = some old
        ∧ value = { old with lastSubKeyPos := size }) := by
  rcases mem_commitWrites.mp hmem with ⟨row, hrow, hplain, hkey, hvalue⟩ |
    ⟨first, hfirst, hpos, hkey, old, hold, hvalue⟩
  · rw [placed_of_not_anchor hplain] at hkey hvalue
    obtain ⟨hentity, -, hplace⟩ := RowKey.mk.inj hkey
    exact .inl ⟨row, mem_waiting.mpr ⟨hrow, hentity.symm, hplain⟩, hplace.symm, hvalue⟩
  obtain ⟨hentity, -, hplace⟩ := RowKey.mk.inj hkey
  subst hentity
  obtain ⟨hsubKey, hnext, hcount, -⟩ := hstate.of_firstRow hexact hfirst
  exact .inr ⟨hsubKey, hplace, by omega, old, hold, by rw [hvalue, hcount]⟩

/-- A row on disk is an old one, with its block, or one that waited. -/
theorem ListExact.committed
    (pos : ℤ) : (db.committedRows.latest ⟨entity, 0, pos⟩ ≠ none ↔ 1 ≤ pos ∧ pos ≤ size)
      ∧ ∀ value, db.committedRows.latest ⟨entity, 0, pos⟩ = some value →
        (pos ≤ confirmed ∧ ∃ old, db.rows.read ⟨entity, 0, pos⟩ = some old
          ∧ value.block = old.block)
        ∨ (confirmed < pos ∧ ∃ row ∈ waiting (db.memPools 0) entity, row.tempPos = pos
          ∧ value.block = row.block) := by
  have hnonneg := hstate.nonneg
  have hle := hstate.numbered.le
  rcases Batched.latest_putList (commitWrites db.rows.read false (db.memPools 0))
    (⟨entity, 0, pos⟩ : RowKey) with ⟨hkey, hlatest⟩ | ⟨value, hmem, hlatest⟩
  · rw [Batched.latest_of_settled hexact.settled] at hlatest
    rw [committedRows, hlatest, hstate.stored]
    constructor
    · refine ⟨fun hpos => ⟨hpos.1, Int.le_trans hpos.2 hle⟩, fun hpos => ⟨hpos.1, ?_⟩⟩
      by_contra hnew
      obtain ⟨row, hrow, hplace⟩ := hstate.numbered.exists_row (Int.not_le.mp hnew) hpos.2
      obtain ⟨hpool, hentity, hplain⟩ := mem_waiting.mp hrow
      refine hkey (List.mem_map.mpr ⟨_, mem_commitWrites.mpr (.inl ⟨row, hpool, hplain, rfl, rfl⟩), ?_⟩)
      rw [placed_of_not_anchor hplain, RowKey.mk.injEq]
      exact ⟨hentity, (hexact.keys row hpool).1, hplace⟩
    intro value hvalue
    have hpos := (hstate.stored pos).mp (by rw [hvalue]; exact Option.some_ne_none _)
    exact .inl ⟨hpos.2, value, hvalue, rfl⟩
  rw [committedRows, hlatest]
  rcases hstate.of_mem_commitWrites hexact hmem with ⟨row, hrow, hplace, hvalue⟩ |
    ⟨-, hpos, hconfirmed, old, hold, hvalue⟩
  · have hbounds := hstate.numbered.bounds row hrow
    refine ⟨iff_of_true (Option.some_ne_none _) (by omega), fun other hother => .inr ?_⟩
    cases hother
    exact ⟨by omega, row, hrow, hplace, by rw [hvalue]⟩
  refine ⟨iff_of_true (Option.some_ne_none _) (by omega), fun other hother => .inl ?_⟩
  cases hother
  exact ⟨by omega, old, hold, by rw [hvalue]⟩

/-- The first row of a sub-key list on disk carries its size. -/
theorem ListExact.committed_count (hsubKey : entity.subKey = true) :
    ((db.committedRows.latest ⟨entity, 0, 1⟩).map fun value => value.lastSubKeyPos).getD 0 = size := by
  have hnonneg := hstate.nonneg
  rcases Batched.latest_putList (commitWrites db.rows.read false (db.memPools 0))
    (⟨entity, 0, 1⟩ : RowKey) with ⟨hkey, hlatest⟩ | ⟨value, hmem, hlatest⟩
  · rw [Batched.latest_of_settled hexact.settled] at hlatest
    rw [committedRows, hlatest]
    rcases hstate.opened hsubKey with hnone | ⟨anchor, first, rest, hrows, hanchor, -, hplain, hcount⟩
    · have hsize := hstate.numbered
      rw [waiting, hnone] at hsize
      have hsame : size = confirmed := hsize
      rw [hsame]
      exact hstate.counted hsubKey
    exfalso
    obtain ⟨before, after, hpool, -, -⟩ := hexact.chunked.split hrows hanchor
    have hfirstPlain := hplain first (.head _)
    have hmemFirst : first ∈ waiting (db.memPools 0) entity := by
      rw [waiting, hrows, List.filter_cons_of_neg (by simp [hanchor]),
        List.filter_cons_of_pos (by simp [hfirstPlain])]
      exact .head _
    obtain ⟨hfirstPool, hfirstEntity, -⟩ := mem_waiting.mp hmemFirst
    have hfirst : FirstRow false (db.memPools 0) first := by
      rw [hpool]
      exact FirstRow.of_split hanchor hfirstPlain
    have hfirstKey := (hexact.keys first hfirstPool).1
    have hstateFirst : db.ListExact chained first.entity confirmed size := by rw [hfirstEntity]; exact hstate
    obtain ⟨-, hnext, -, -⟩ := hstateFirst.of_firstRow hexact hfirst
    by_cases hnew : confirmed = 0
    · refine hkey (List.mem_map.mpr
        ⟨_, mem_commitWrites.mpr (.inl ⟨first, hfirstPool, hfirstPlain, rfl, rfl⟩), ?_⟩)
      rw [placed_of_not_anchor hfirstPlain, RowKey.mk.injEq]
      exact ⟨hfirstEntity, hfirstKey, by omega⟩
    obtain ⟨old, hold⟩ := Option.ne_none_iff_exists'.mp ((hstate.stored 1).mpr (by omega))
    refine hkey (List.mem_map.mpr ⟨(⟨entity, 0, 1⟩, { old with
      lastSubKeyPos := first.lastSubKeyPos }), mem_commitWrites.mpr (.inr
        ⟨first, hfirst, by omega, ?_, old, hold, rfl⟩), rfl⟩)
    rw [hfirstEntity, hfirstKey]
  rw [committedRows, hlatest]
  rcases hstate.of_mem_commitWrites hexact hmem with ⟨row, hrow, hplace, hvalue⟩ |
    ⟨-, -, -, old, hold, hvalue⟩
  · rcases hstate.opened hsubKey with hnone | ⟨anchor, first, rest, hrows, hanchor, -, hplain, hcount⟩
    · rw [waiting, hnone] at hrow
      cases hrow
    have hwaiting : waiting (db.memPools 0) entity = first :: rest := by
      rw [waiting, hrows, List.filter_cons_of_neg (by simp [hanchor]), List.filter_eq_self]
      intro other hother
      rw [hplain other hother]
      rfl
    have hnumbered := hstate.numbered
    rw [hwaiting] at hnumbered hrow
    rcases List.mem_cons.mp hrow with hsame | hlater
    · rw [hvalue, hsame]
      exact hcount
    have hlaterBounds := hnumbered.2.bounds row hlater
    omega
  rw [hvalue]
  rfl

end

/-- Each row that waits in a list by chain position carries the block that is committed. -/
def NextBlock (db : TxDB) : Prop :=
  ∀ row ∈ db.memPools 0, isAnchor row = false → row.entity.timeReceived = false →
    row.block = (db.imports 0).block + 1

theorem exists_commit (hexact : db.Exact chained) : ∃ after, db.commit 0 = .ok after
    ∧ after.imports 0 = ⟨(db.imports 0).importId, (db.imports 0).block + 1,
      (db.imports 0).entities.map fun stat => { stat with lastClearedPos := stat.lastPos }⟩
    ∧ after.memPools 0 = [] ∧ after.rows = db.committedRows.commit := by
  rw [commit]
  rw [commitRows_of_exact hexact]
  exact ⟨_, rfl, by simp, by simp, rfl⟩

/-- `Commit` succeeds, and every row is confirmed. -/
theorem exact_commit (hexact : db.Exact chained) (hnext : chained → db.NextBlock) :
    ∃ after, db.commit 0 = .ok after ∧ after.Exact chained
      ∧ ∀ {entity confirmed size}, db.ListExact chained entity confirmed size →
        after.ListExact chained entity size size := by
  obtain ⟨after, hcommit, himport, hpool, hrows⟩ := exists_commit hexact
  have hlists : ∀ {entity confirmed size}, db.ListExact chained entity confirmed size →
      after.ListExact chained entity size size := by
    intro entity confirmed size hstate
    have hnonneg := hstate.nonneg
    have hle := hstate.numbered.le
    have hwaits : ∀ row ∈ waiting (db.memPools 0) entity, chained → entity.timeReceived = false →
        row.block = (db.imports 0).block + 1 := by
      intro row hrow hchained hchain
      obtain ⟨hmem, hentity, hplain⟩ := mem_waiting.mp hrow
      exact hnext hchained row hmem hplain (by rw [hentity, hchain])
    have hstat : after.statOf entity =
        (db.statOf entity).map fun stat => { stat with lastClearedPos := stat.lastPos } := by
      rw [statOf, himport, List.find?_map]
      rfl
    unfold ListExact
    rw [hrows, himport, hpool, hstat]
    constructor
    case nonneg => omega
    case stored =>
      intro pos
      exact (hstate.committed hexact pos).1
    case ordered =>
      intro hchained hchain pos later value next hvalue hnextValue hpos
      rcases (hstate.committed hexact pos).2 value hvalue with ⟨-, old, hold, hblock⟩ |
        ⟨hnew, row, hrow, -, hblock⟩
      · rcases (hstate.committed hexact later).2 next hnextValue with ⟨-, other, hother, hnextBlock⟩ |
          ⟨-, row, hrow, -, hnextBlock⟩
        · rw [hblock, hnextBlock]
          exact hstate.ordered hchained hchain pos later old other hold hother hpos
        have hbelow := hstate.below hchained hchain pos old hold
        rw [hnextBlock, hwaits row hrow hchained hchain]
        omega
      rcases (hstate.committed hexact later).2 next hnextValue with ⟨hold, -⟩ |
        ⟨-, other, hother, -, hnextBlock⟩
      · omega
      exact Int.le_of_eq (by
        rw [hblock, hnextBlock, hwaits row hrow hchained hchain,
          hwaits other hother hchained hchain])
    case below =>
      intro hchained hchain pos value hvalue
      rcases (hstate.committed hexact pos).2 value hvalue with ⟨-, old, hold, hblock⟩ |
        ⟨-, row, hrow, -, hblock⟩
      · have hbelow := hstate.below hchained hchain pos old hold
        dsimp only
        omega
      · exact Int.le_of_eq (by rw [hblock, hwaits row hrow hchained hchain])
    case numbered => rfl
    case plain =>
      intro hsubKey
      have hsize := hstate.plain hsubKey
      cases hold : db.statOf entity with
      | none =>
        rw [hold] at hsize
        obtain ⟨hsame, -⟩ := Prod.mk.inj hsize
        rw [← hsame]
        rfl
      | some stat =>
        rw [hold] at hsize
        obtain ⟨hsame, -⟩ := Prod.mk.inj hsize
        rw [← hsame]
        rfl
    case counted =>
      intro hsubKey
      exact hstate.committed_count hexact hsubKey
    case opened => exact fun _ => .inl rfl
  refine ⟨after, hcommit, ?_, hlists⟩
  constructor
  case settled => rw [hrows]; exact Batched.settled_commit
  case chainImport => rw [himport]; exact hexact.chainImport
  case subscribed =>
    rw [himport]
    intro stat hstat
    obtain ⟨old, hold, rfl⟩ := List.mem_map.mp hstat
    exact hexact.subscribed old hold
  case nodup =>
    rw [himport, List.map_map]
    exact hexact.nodup
  case keys =>
    rw [hpool]
    intro row hrow
    cases hrow
  case chunked => rw [hpool]; exact .nil
  case lists =>
    intro entity
    obtain ⟨confirmed, size, hstate⟩ := hexact.lists entity
    exact ⟨size, size, hlists hstate⟩

end TxDB

end Amberchain.Wallet
