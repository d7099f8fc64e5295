import Amberchain.Wallet.ListState

/-!
# Exact lookups

The rows of a list in their order, and the part of them that each `GetList` returns.
-/

namespace Amberchain.Wallet

/-- A waiting row at the place that `GetList` reports. -/
def TxEntityRow.listed (row : TxEntityRow) : TxEntityRow :=
  { row with pos := row.tempPos }

def window (rows : List TxEntityRow) (first last : ℤ) : List TxEntityRow :=
  rows.filter fun row => first ≤ row.pos ∧ row.pos ≤ last

namespace TxDB

def storedRows (db : TxDB) (entity : TxEntity) (first last : ℤ) : List TxEntityRow :=
  (positions first last).filterMap fun pos =>
    (db.rows.read ⟨entity, 0, pos⟩).map fun value => ⟨⟨entity, 0, pos⟩, value⟩

def listOf (db : TxDB) (entity : TxEntity) : List TxEntityRow :=
  db.storedRows entity 1 (db.getGenerationListSize entity 0).2
    ++ (waiting (db.memPools 0) entity).map TxEntityRow.listed

end TxDB

section Windows

variable {rows more : List TxEntityRow} {row : TxEntityRow} {first last : ℤ}

theorem window_append : window (rows ++ more) first last = window rows first last ++ window more first last :=
  List.filter_append ..

theorem window_cons (hrow : first ≤ row.pos ∧ row.pos ≤ last) :
    window (row :: rows) first last = row :: window rows first last :=
  List.filter_cons_of_pos (by simpa using hrow)

theorem window_eq_nil (hrows : ∀ row ∈ rows, row.pos < first ∨ last < row.pos) :
    window rows first last = [] := by
  rw [window, List.filter_eq_nil_iff]
  intro row hrow hwindow
  rw [decide_eq_true_eq] at hwindow
  have hout := hrows row hrow
  omega

theorem window_congr {start finish : ℤ}
    (hrows : ∀ row ∈ rows, (first ≤ row.pos ∧ row.pos ≤ last) ↔ start ≤ row.pos ∧ row.pos ≤ finish) :
    window rows first last = window rows start finish :=
  List.filter_congr fun row hrow => decide_eq_decide.mpr (hrows row hrow)

end Windows

theorem map_pos_listed (rows : List TxEntityRow) :
    (rows.map TxEntityRow.listed).map (fun row => row.pos) = rows.map fun row => row.tempPos := by
  rw [List.map_map]
  rfl

namespace TxDB

variable {chained : Prop} {db : TxDB} {entity : TxEntity} {confirmed size : ℤ}

theorem pos_of_mem_storedRows {first last : ℤ} {row : TxEntityRow}
    (hrow : row ∈ db.storedRows entity first last) : first ≤ row.pos ∧ row.pos ≤ last := by
  obtain ⟨pos, hpos, hfound⟩ := List.mem_filterMap.mp hrow
  obtain ⟨-, -, rfl⟩ := Option.map_eq_some_iff.mp hfound
  exact mem_positions.mp hpos

theorem storedRows_of_lt {first last : ℤ} (hlast : last < first) :
    db.storedRows entity first last = [] := by
  rw [storedRows, positions_of_lt hlast, List.filterMap_nil]

theorem storedRows_cons {first last : ℤ} (hlast : first ≤ last) {value : RowValue}
    (hvalue : db.rows.read ⟨entity, 0, first⟩ = some value) : db.storedRows entity first last =
      ⟨⟨entity, 0, first⟩, value⟩ :: db.storedRows entity (first + 1) last := by
  rw [storedRows, positions_cons hlast, List.filterMap_cons, hvalue]
  rfl

theorem storedRows_append {first middle last : ℤ} (hmiddle : first ≤ middle + 1) (hlast : middle ≤ last) :
    db.storedRows entity first last =
      db.storedRows entity first middle ++ db.storedRows entity (middle + 1) last := by
  rw [storedRows, positions_append hmiddle hlast, List.filterMap_append]
  rfl

theorem ListExact.map_storedRows (hstate : db.ListExact chained entity confirmed size) :
    (db.storedRows entity 1 confirmed).map (fun row => row.pos) = positions 1 confirmed := by
  have hall : ∀ pos ∈ positions 1 confirmed, db.rows.read ⟨entity, 0, pos⟩ ≠ none := fun pos hpos =>
    (hstate.stored pos).mpr (mem_positions.mp hpos)
  rw [storedRows]
  generalize positions 1 confirmed = places at hall ⊢
  induction places with
  | nil => rfl
  | cons pos later ih =>
    obtain ⟨value, hvalue⟩ := Option.ne_none_iff_exists'.mp (hall pos (.head _))
    rw [List.filterMap_cons, hvalue, Option.map_some, List.map_cons,
      ih fun other hother => hall other (.tail _ hother)]

/-- The search for a place skips the rows before it, and finds its row. -/
theorem exists_dropWhile {i : ℤ} (hi : 1 ≤ i) : ∀ {pool : List TxEntityRow} {m : ℤ},
    Numbered m (waiting pool entity) size → m < i → i ≤ size → ∃ before row rest,
      (pool.dropWhile fun row => !(row.tempPos = i ∧ row.entity = entity)) = row :: rest
        ∧ row.tempPos = i ∧ waiting pool entity = before ++ row :: waiting rest entity
        ∧ (∀ other ∈ before, other.tempPos < i) ∧ Numbered i (waiting rest entity) size
  | [], m, hrows, hlow, hhigh => by
    have hsize : size = m := hrows
    omega
  | row :: pool, m, hrows, hlow, hhigh => by
    by_cases hfound : row.tempPos = i ∧ row.entity = entity
    · have hplain : isAnchor row = false := by
        simp [isAnchor, hfound.1, show i ≠ 0 by omega]
      rw [waiting_cons_self hplain hfound.2] at hrows
      have hnext : m + 1 = i := hrows.1.symm.trans hfound.1
      have hrest := hrows.2
      rw [hnext] at hrest
      refine ⟨[], row, pool, ?_, hfound.1, waiting_cons_self hplain hfound.2,
        (fun other hother => by cases hother), hrest⟩
      rw [List.dropWhile_cons_of_neg (by simp [hfound])]
    rw [List.dropWhile_cons_of_pos (by rw [Bool.not_eq_true', decide_eq_false_iff_not]; exact hfound)]
    by_cases hwaits : isAnchor row = false ∧ row.entity = entity
    · rw [waiting_cons_self hwaits.1 hwaits.2] at hrows ⊢
      have hplace : row.tempPos = m + 1 := hrows.1
      have hbefore : m + 1 < i := by
        have hne : row.tempPos ≠ i := fun hsame => hfound ⟨hsame, hwaits.2⟩
        omega
      obtain ⟨before, found, rest, hdrop, hpos, hsplit, hsmall, hrest⟩ :=
        exists_dropWhile hi hrows.2 hbefore hhigh
      refine ⟨row :: before, found, rest, hdrop, hpos, by rw [hsplit, List.cons_append],
        fun other hother => ?_, hrest⟩
      rcases List.mem_cons.mp hother with rfl | hother
      · omega
      · exact hsmall other hother
    have hskip : waiting (row :: pool) entity = waiting pool entity := by
      by_cases hentity : row.entity = entity
      · refine waiting_cons_anchor ?_
        by_contra hplain
        exact hwaits ⟨Bool.eq_false_iff.mpr hplain, hentity⟩
      · exact waiting_cons_of_ne hentity
    rw [hskip] at hrows ⊢
    exact exists_dropWhile hi hrows hlow hhigh

/-- The loop of `GetList` returns the rows of its window. -/
theorem listRows_eq (hstate : db.ListExact chained entity confirmed size) {last : ℤ}
    (hlast : last ≤ size) :
    ∀ (count : ℕ) {first m : ℤ} {pool : List TxEntityRow}, last - first < count → 1 ≤ first →
      Numbered m (waiting pool entity) size → confirmed ≤ m → (m ≤ confirmed ∨ m < first) →
      db.listRows entity 0 confirmed (positions first last) pool =
        .ok (window (db.storedRows entity first confirmed
          ++ (waiting pool entity).map TxEntityRow.listed) first last)
  | 0, first, m, pool, hcount, _, _, _, _ => by
    rw [positions_of_lt (show last < first by omega), listRows, window_eq_nil]
    intro row _
    omega
  | count + 1, first, m, pool, hcount, hfirst, hrows, hconfirmed, hlow => by
    by_cases hempty : last < first
    · rw [positions_of_lt hempty, listRows, window_eq_nil]
      intro row _
      omega
    have hwaiting : ∀ {others : List TxEntityRow} {above : ℤ}, Numbered above others size →
        ∀ row ∈ others.map TxEntityRow.listed, above < row.pos := by
      intro others above hothers row hrow
      obtain ⟨other, hother, rfl⟩ := List.mem_map.mp hrow
      exact (hothers.bounds other hother).1
    rw [positions_cons (Int.not_lt.mp hempty), listRows]
    by_cases hstored : first ≤ confirmed
    · obtain ⟨value, hvalue⟩ := Option.ne_none_iff_exists'.mp
        ((hstate.stored first).mpr ⟨hfirst, hstored⟩)
      have hwindow : first ≤ (⟨⟨entity, 0, first⟩, value⟩ : TxEntityRow).pos
          ∧ (⟨⟨entity, 0, first⟩, value⟩ : TxEntityRow).pos ≤ last :=
        ⟨Int.le_refl _, Int.not_lt.mp hempty⟩
      rw [if_pos hstored, hvalue]
      rw [listRows_eq hstate hlast count (by omega) (by omega) hrows hconfirmed (by omega),
        storedRows_cons hstored hvalue, List.cons_append, window_cons hwindow]
      refine congrArg (fun rows => Except.ok (_ :: rows)) (window_congr fun row hrow => ?_)
      have hbeyond : first + 1 ≤ row.pos := by
        rcases List.mem_append.mp hrow with hrow | hrow
        · exact (pos_of_mem_storedRows hrow).1
        have habove := hwaiting hrows row hrow
        omega
      omega
    obtain ⟨before, row, rest, hdrop, hpos, hsplit, hsmall, hrest⟩ :=
      exists_dropWhile hfirst hrows (by omega) (by omega)
    have hbefore : window (before.map TxEntityRow.listed) first last = [] := by
      refine window_eq_nil fun other hother => ?_
      obtain ⟨waits, hwaits, rfl⟩ := List.mem_map.mp hother
      exact .inl (hsmall waits hwaits)
    have hplace : ({ row with pos := first } : TxEntityRow) = row.listed := by
      rw [TxEntityRow.listed, hpos]
    have hwindow : first ≤ row.listed.pos ∧ row.listed.pos ≤ last := by
      rw [← hplace]
      exact ⟨Int.le_refl _, Int.not_lt.mp hempty⟩
    have hnone : ∀ start, first ≤ start → db.storedRows entity start confirmed = [] :=
      fun start hstart => storedRows_of_lt (by omega)
    rw [if_neg hstored, hdrop]
    dsimp only
    rw [listRows_eq hstate hlast count (by omega) (by omega) hrest (by omega) (by omega),
      hnone first (Int.le_refl _), hnone (first + 1) (by omega), hsplit, List.nil_append,
      List.nil_append, List.map_append, List.map_cons, window_append, hbefore, window_cons hwindow, hplace]
    refine congrArg (fun rows => Except.ok (_ :: rows)) (window_congr fun other hother => ?_)
    have habove := hwaiting hrest other hother
    omega

section

variable (hexact : db.Exact chained) (hstate : db.ListExact chained entity confirmed size)

include hexact hstate

theorem ListExact.listOf_eq :
    db.listOf entity = db.storedRows entity 1 confirmed
      ++ (waiting (db.memPools 0) entity).map TxEntityRow.listed := by
  rw [listOf, hstate.size_eq hexact]

theorem ListExact.map_pos_listOf :
    (db.listOf entity).map (fun row => row.pos) = positions 1 size := by
  have hnonneg := hstate.nonneg
  rw [hstate.listOf_eq hexact, List.map_append, hstate.map_storedRows, map_pos_listed,
    hstate.numbered.map_eq, ← positions_append (by omega) hstate.numbered.le]

theorem ListExact.pos_bounds :
    ∀ row ∈ db.listOf entity, 1 ≤ row.pos ∧ row.pos ≤ size := by
  intro row hrow
  have hpos : row.pos ∈ (db.listOf entity).map fun row => row.pos := List.mem_map_of_mem hrow
  rw [hstate.map_pos_listOf hexact] at hpos
  exact mem_positions.mp hpos

/-- Confirmed rows of a list by chain position are in the order of their blocks. -/
theorem ListExact.block_le (hchained : chained)
    (hchain : entity.timeReceived = false) :
    ∀ row ∈ db.listOf entity, ∀ next ∈ db.listOf entity, row.pos ≤ next.pos → next.pos ≤ confirmed →
      row.block ≤ next.block := by
  have hread : ∀ row ∈ db.listOf entity, row.pos ≤ confirmed →
      db.rows.read ⟨entity, 0, row.pos⟩ = some row.toRowValue := by
    intro row hrow hpos
    rw [hstate.listOf_eq hexact] at hrow
    rcases List.mem_append.mp hrow with hrow | hrow
    · obtain ⟨pos, -, hfound⟩ := List.mem_filterMap.mp hrow
      obtain ⟨value, hvalue, rfl⟩ := Option.map_eq_some_iff.mp hfound
      exact hvalue
    obtain ⟨waits, hwaits, rfl⟩ := List.mem_map.mp hrow
    have hbeyond := (hstate.numbered.bounds waits hwaits).1
    exact absurd hpos (Int.not_le.mpr hbeyond)
  intro row hrow next hnext hpos hconfirmed
  have hfirst := hread row hrow (Int.le_trans hpos hconfirmed)
  have hsecond := hread next hnext hconfirmed
  exact hstate.ordered hchained hchain row.pos next.pos _ _ hfirst hsecond hpos

/-- The loop over a part of the list. -/
theorem ListExact.listRows_eq {first last : ℤ} (hfirst : 1 ≤ first)
    (hlast : last ≤ size) : db.listRows entity 0 confirmed (positions first last) (db.memPools 0) =
      .ok (window (db.listOf entity) first last) := by
  have hrows := TxDB.listRows_eq hstate hlast (last - first + 1).toNat (by omega) hfirst
    hstate.numbered (Int.le_refl _) (.inl (Int.le_refl _))
  rw [hrows, hstate.listOf_eq hexact, window_append, window_append]
  refine congrArg (fun rows => Except.ok (rows ++ _)) ?_
  have hbelow : ∀ row ∈ db.storedRows entity 1 (first - 1), row.pos < first ∨ last < row.pos :=
    fun row hrow => .inl (by have hbounds := (pos_of_mem_storedRows hrow).2; omega)
  by_cases hbeyond : first ≤ confirmed + 1
  · rw [storedRows_append (show (1 : ℤ) ≤ first - 1 + 1 by omega) (show first - 1 ≤ confirmed by omega),
      window_append, window_eq_nil hbelow, List.nil_append, Int.sub_add_cancel]
  have hnone : window (db.storedRows entity 1 confirmed) first last = [] := by
    refine window_eq_nil fun row hrow => ?_
    have hbounds := (pos_of_mem_storedRows hrow).2
    omega
  rw [storedRows_of_lt (show confirmed < first by omega), hnone]
  rfl

end

/-- The rows that a lookup asks for. -/
def requested (db : TxDB) (entity : TxEntity) (start count : ℤ) : List TxEntityRow :=
  let first := windowFirst (db.getGenerationListSize entity 0).1 start count
  window (db.listOf entity) first (first + count - 1)

section

variable (hexact : db.Exact chained) (hstate : db.ListExact chained entity confirmed size)

include hexact hstate

theorem ListExact.requested_eq (start count : ℤ) :
    db.requested entity start count = window (db.listOf entity)
      (max (windowFirst size start count) 1) (min (windowFirst size start count + count - 1) size) := by
  have hsize : (db.getGenerationListSize entity 0).1 = size := by rw [hstate.size_eq hexact]
  rw [requested, hsize]
  refine window_congr fun row hrow => ?_
  have hbounds := hstate.pos_bounds hexact row hrow
  omega

/-- `GetList` of an entity returns the rows that it is asked for. -/
theorem ListExact.getList_eq (hplain : entity.subKey = false)
    (start count : ℤ) : db.getList 0 entity start count = .ok (db.requested entity start count) := by
  have hpair := hstate.plain hplain
  have hempty : ∀ first last, last < first → window (db.listOf entity) first last = [] :=
    fun first last hlast => window_eq_nil fun row _ => by omega
  rw [hstate.requested_eq hexact]
  unfold getList
  rw [statOf_eq, getListSize_eq, hpair]
  cases hstat : db.statOf entity with
  | none =>
    rw [hstat] at hpair
    obtain ⟨hzero, -⟩ := Prod.mk.inj hpair
    rw [hempty _ _ (by omega)]
  | some stat =>
    have hentity := entity_of_statOf hstat
    obtain ⟨hgeneration, -⟩ := hexact.subscribed stat (mem_of_statOf hstat)
    rw [hstat] at hpair
    obtain ⟨-, hcleared⟩ := Prod.mk.inj hpair
    dsimp only
    rw [hentity, hgeneration, hcleared]
    generalize windowFirst size start count = first
    by_cases hbefore : first + count - 1 < 1
    · rw [if_pos hbefore, hempty _ _ (by omega)]
    rw [if_neg hbefore]
    by_cases hclipped : first ≤ 0
    · have hlast : (if 1 + (count - (1 - first)) - 1 ≤ size then 1 + (count - (1 - first)) - 1
          else size) = min (first + count - 1) size := by
        split <;> omega
      have hfirst : max first 1 = 1 := by omega
      rw [if_pos hclipped, if_pos hclipped, hlast, hfirst,
        hstate.listRows_eq hexact (Int.le_refl _) (by omega)]
    have hlast : (if first + count - 1 ≤ size then first + count - 1 else size) =
        min (first + count - 1) size := by
      split <;> omega
    have hfirst : max first 1 = first := by omega
    rw [if_neg hclipped, if_neg hclipped, hlast, hfirst,
      hstate.listRows_eq hexact (by omega) (by omega)]

/-- A window that starts before the list is not cut at its end. -/
theorem ListExact.getGenerationList_eq (start count : ℤ) :
    db.getGenerationList 0 entity 0 start count =
      .ok (if windowFirst size start count ≤ 0 ∧ 1 ≤ windowFirst size start count + count - 1 then
        window (db.listOf entity) 1 (min count size)
      else db.requested entity start count) := by
  have hempty : ∀ first last, last < first → window (db.listOf entity) first last = [] :=
    fun first last hlast => window_eq_nil fun row _ => by omega
  rw [hstate.requested_eq hexact]
  unfold getGenerationList
  rw [hstate.size_eq hexact]
  dsimp only
  by_cases hsize : size ≤ 0
  · rw [if_pos hsize]
    split <;> rw [hempty _ _ (by omega)]
  rw [if_neg hsize]
  generalize windowFirst size start count = first
  by_cases hbefore : first + count - 1 < 1
  · have huncut : ¬(first ≤ 0 ∧ 1 ≤ first + count - 1) := by omega
    rw [if_pos hbefore, if_neg huncut, hempty _ _ (by omega)]
  rw [if_neg hbefore]
  by_cases hclipped : first ≤ 0
  · have hlast : (if 1 + count - 1 ≤ size then 1 + count - 1 else size) = min count size := by
      split <;> omega
    have hcut : first ≤ 0 ∧ 1 ≤ first + count - 1 := by omega
    rw [if_pos hclipped, if_pos hcut, hlast, hstate.listRows_eq hexact (Int.le_refl _) (by omega)]
  have hlast : (if first + count - 1 ≤ size then first + count - 1 else size) =
      min (first + count - 1) size := by
    split <;> omega
  have huncut : ¬(first ≤ 0 ∧ 1 ≤ first + count - 1) := by omega
  have hfirst : max first 1 = first := by omega
  rw [if_neg hclipped, if_neg huncut, hlast, hfirst,
    hstate.listRows_eq hexact (by omega) (by omega)]

end

end TxDB

end Amberchain.Wallet
