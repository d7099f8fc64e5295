import Amberchain.Wallet.TxDB

/-!
# Rows that wait

The mempool holds the rows of many lists.  The rows of one list are numbered without gaps,
and a sub-key list starts with an anchor that the list's first row follows at once.
-/

namespace Amberchain.Wallet

def rowsOf (pool : List TxEntityRow) (entity : TxEntity) : List TxEntityRow :=
  pool.filter fun row => row.entity = entity

def waiting (pool : List TxEntityRow) (entity : TxEntity) : List TxEntityRow :=
  (rowsOf pool entity).filter fun row => !TxDB.isAnchor row

/-- The positions of the rows go up by one, from after `c` to `n`. -/
def Numbered : ℤ → List TxEntityRow → ℤ → Prop
  | c, [], n => n = c
  | c, row :: rows, n => row.tempPos = c + 1 ∧ Numbered (c + 1) rows n

/-- A list of single rows and of anchors with the row after them. -/
inductive Chunked : List TxEntityRow → Prop
  | nil : Chunked []
  | row {row : TxEntityRow} {rest : List TxEntityRow} (hrow : TxDB.isAnchor row = false)
      (hrest : Chunked rest) : Chunked (row :: rest)
  | opened {anchor first : TxEntityRow} {rest : List TxEntityRow}
      (hanchor : TxDB.isAnchor anchor = true) (hfirst : TxDB.isAnchor first = false)
      (hentity : first.entity = anchor.entity) (hrest : Chunked rest) :
      Chunked (anchor :: first :: rest)

namespace Numbered

variable {c n : ℤ} {rows more : List TxEntityRow}

theorem append {m : ℤ} : ∀ {c : ℤ} {rows : List TxEntityRow}, Numbered c rows m →
    Numbered m more n → Numbered c (rows ++ more) n
  | _, [], hrows, hmore => by
    cases hrows
    exact hmore
  | _, _ :: _, hrows, hmore => ⟨hrows.1, append hrows.2 hmore⟩

theorem single {row : TxEntityRow} (hrow : row.tempPos = c + 1) : Numbered c [row] (c + 1) :=
  ⟨hrow, rfl⟩

/-- Only the positions count. -/
theorem congr : ∀ {c : ℤ} {rows more : List TxEntityRow},
    rows.map (fun row => row.tempPos) = more.map (fun row => row.tempPos) →
    Numbered c rows n → Numbered c more n
  | _, [], more, hmap, hrows => by
    rw [List.map_nil, eq_comm, List.map_eq_nil_iff] at hmap
    rw [hmap]
    exact hrows
  | _, row :: rows, more, hmap, hrows => by
    obtain ⟨other, others, rfl, hother, hothers⟩ := List.map_eq_cons_iff.mp hmap.symm
    exact ⟨hother.trans hrows.1, congr hothers.symm hrows.2⟩

theorem length : ∀ {c : ℤ} {rows : List TxEntityRow}, Numbered c rows n → n = c + rows.length
  | _, [], hrows => by
    cases hrows
    simp
  | c, _ :: rows, hrows => by
    have hlength := length hrows.2
    rw [List.length_cons]
    omega

theorem le (hrows : Numbered c rows n) : c ≤ n := by
  have hlength := hrows.length
  omega

theorem bounds : ∀ {c : ℤ} {rows : List TxEntityRow}, Numbered c rows n →
    ∀ row ∈ rows, c < row.tempPos ∧ row.tempPos ≤ n
  | c, first :: rows, hrows, row, hrow => by
    have hle := hrows.2.le
    have hfirst := hrows.1
    rcases List.mem_cons.mp hrow with rfl | hrow
    · omega
    have hbounds := bounds hrows.2 row hrow
    omega

end Numbered

theorem positions_of_lt {first last : ℤ} (hlast : last < first) : TxDB.positions first last = [] := by
  have hcount : (last - first + 1).toNat = 0 := by omega
  rw [TxDB.positions, hcount, List.range_zero, List.map_nil]

theorem positions_cons {first last : ℤ} (hlast : first ≤ last) :
    TxDB.positions first last = first :: TxDB.positions (first + 1) last := by
  have hcount : (last - first + 1).toNat = (last - (first + 1) + 1).toNat + 1 := by omega
  rw [TxDB.positions, hcount, List.range_succ_eq_map, List.map_cons, List.map_map]
  refine congrArg₂ List.cons (by simp) (List.map_congr_left fun offset _ => ?_)
  rw [Function.comp_apply]
  omega

theorem Numbered.map_eq : ∀ {c n : ℤ} {rows : List TxEntityRow}, Numbered c rows n →
    rows.map (fun row => row.tempPos) = TxDB.positions (c + 1) n
  | c, n, [], hrows => by
    have hlast : n = c := hrows
    rw [positions_of_lt (by omega), List.map_nil]
  | c, n, row :: rows, hrows => by
    have hle := hrows.2.le
    rw [List.map_cons, hrows.1, Numbered.map_eq hrows.2, ← positions_cons hle]

theorem mem_positions {first last i : ℤ} : i ∈ TxDB.positions first last ↔ first ≤ i ∧ i ≤ last := by
  rw [TxDB.positions, List.mem_map]
  constructor
  · rintro ⟨offset, hoffset, rfl⟩
    have hlast := List.mem_range.mp hoffset
    omega
  intro hbounds
  exact ⟨(i - first).toNat, List.mem_range.mpr (by omega), by omega⟩

theorem Numbered.exists_row {c n i : ℤ} {rows : List TxEntityRow} (hrows : Numbered c rows n)
    (hlow : c < i) (hhigh : i ≤ n) : ∃ row ∈ rows, row.tempPos = i := by
  have hmem : i ∈ rows.map fun row => row.tempPos := by
    rw [hrows.map_eq, mem_positions]
    omega
  exact List.mem_map.mp hmem

theorem positions_append {first middle last : ℤ} (hmiddle : first ≤ middle + 1)
    (hlast : middle ≤ last) :
    TxDB.positions first last = TxDB.positions first middle ++ TxDB.positions (middle + 1) last := by
  obtain ⟨count, hcount⟩ : ∃ count : ℕ, middle + 1 - first = count :=
    ⟨(middle + 1 - first).toNat, by omega⟩
  induction count generalizing first with
  | zero =>
    have hfirst : first = middle + 1 := by omega
    rw [hfirst, positions_of_lt (show middle < middle + 1 by omega), List.nil_append]
  | succ count ih =>
    rw [positions_cons (show first ≤ last by omega), positions_cons (show first ≤ middle by omega),
      ih (by omega) (by omega), List.cons_append]

variable {change : TxEntityRow → TxEntityRow}

section Rows

variable {pool more : List TxEntityRow} {entity : TxEntity} {row : TxEntityRow}

theorem rowsOf_append : rowsOf (pool ++ more) entity = rowsOf pool entity ++ rowsOf more entity :=
  List.filter_append ..

theorem rowsOf_cons_self (hrow : row.entity = entity) :
    rowsOf (row :: pool) entity = row :: rowsOf pool entity :=
  List.filter_cons_of_pos (decide_eq_true hrow)

theorem rowsOf_cons_of_ne (hrow : row.entity ≠ entity) :
    rowsOf (row :: pool) entity = rowsOf pool entity :=
  List.filter_cons_of_neg (by simpa using hrow)

theorem mem_rowsOf : row ∈ rowsOf pool entity ↔ row ∈ pool ∧ row.entity = entity := by
  rw [rowsOf, List.mem_filter, decide_eq_true_eq]

theorem waiting_append : waiting (pool ++ more) entity = waiting pool entity ++ waiting more entity := by
  rw [waiting, rowsOf_append, List.filter_append]
  rfl

theorem waiting_cons_of_ne (hrow : row.entity ≠ entity) :
    waiting (row :: pool) entity = waiting pool entity := by
  rw [waiting, rowsOf_cons_of_ne hrow]
  rfl

theorem waiting_cons_anchor (hrow : TxDB.isAnchor row = true) :
    waiting (row :: pool) entity = waiting pool entity := by
  by_cases hentity : row.entity = entity
  · rw [waiting, rowsOf_cons_self hentity, List.filter_cons_of_neg (by simp [hrow])]
    rfl
  exact waiting_cons_of_ne hentity

theorem waiting_cons_self (hrow : TxDB.isAnchor row = false) (hentity : row.entity = entity) :
    waiting (row :: pool) entity = row :: waiting pool entity := by
  rw [waiting, rowsOf_cons_self hentity, List.filter_cons_of_pos (by simp [hrow])]
  rfl

theorem mem_waiting :
    row ∈ waiting pool entity ↔ row ∈ pool ∧ row.entity = entity ∧ TxDB.isAnchor row = false := by
  rw [waiting, List.mem_filter, mem_rowsOf, Bool.not_eq_eq_eq_not, Bool.not_true, and_assoc]

theorem rowsOf_filter (keep : TxEntity → Bool) :
    rowsOf (pool.filter fun row => keep row.entity) entity =
      if keep entity then rowsOf pool entity else [] := by
  rw [rowsOf, List.filter_filter]
  split
  · next hkeep =>
    refine List.filter_congr fun row _ => ?_
    by_cases hrow : row.entity = entity
    · simp [hrow, hkeep]
    · simp [hrow]
  next hdrop =>
  rw [List.filter_eq_nil_iff]
  intro row _ hrow
  rw [Bool.and_eq_true, decide_eq_true_eq] at hrow
  rw [hrow.1] at hrow
  exact hdrop hrow.2

theorem rowsOf_modify_of_ne (hchange : ∀ row, (change row).entity = row.entity) :
    ∀ {pool : List TxEntityRow} {index : ℕ}, (∀ row, pool[index]? = some row → row.entity ≠ entity) →
      rowsOf (pool.modify index change) entity = rowsOf pool entity
  | [], index, _ => by simp
  | row :: pool, 0, hrow => by
    have hentity := hrow row rfl
    rw [List.modify_zero_cons, rowsOf_cons_of_ne hentity,
      rowsOf_cons_of_ne (by rw [hchange]; exact hentity)]
  | row :: pool, index + 1, hrow => by
    rw [List.modify_succ_cons]
    have hrest : rowsOf (pool.modify index change) entity = rowsOf pool entity :=
      rowsOf_modify_of_ne hchange hrow
    by_cases hentity : row.entity = entity
    · rw [rowsOf_cons_self hentity, rowsOf_cons_self hentity, hrest]
    rw [rowsOf_cons_of_ne hentity, rowsOf_cons_of_ne hentity, hrest]

/-- A change that keeps what is read of the rows is not seen. -/
theorem map_rowsOf_modify {Seen : Type*} {seen : TxEntityRow → Seen}
    (hentity : ∀ row, (change row).entity = row.entity)
    (hseen : ∀ row, seen (change row) = seen row) : ∀ {pool : List TxEntityRow} {index : ℕ},
      (rowsOf (pool.modify index change) entity).map seen = (rowsOf pool entity).map seen
  | [], index => by simp
  | row :: pool, 0 => by
    rw [List.modify_zero_cons]
    by_cases hrow : row.entity = entity
    · rw [rowsOf_cons_self hrow, rowsOf_cons_self ((hentity row).trans hrow), List.map_cons,
        List.map_cons, hseen]
    · rw [rowsOf_cons_of_ne hrow, rowsOf_cons_of_ne (by rw [hentity]; exact hrow)]
  | row :: pool, index + 1 => by
    rw [List.modify_succ_cons]
    have hrest : (rowsOf (pool.modify index change) entity).map seen =
        (rowsOf pool entity).map seen := map_rowsOf_modify hentity hseen
    by_cases hrow : row.entity = entity
    · rw [rowsOf_cons_self hrow, rowsOf_cons_self hrow, List.map_cons, List.map_cons, hrest]
    rw [rowsOf_cons_of_ne hrow, rowsOf_cons_of_ne hrow, hrest]

end Rows

namespace Chunked

variable {pool more : List TxEntityRow}

theorem append (hpool : Chunked pool) (hmore : Chunked more) : Chunked (pool ++ more) := by
  induction hpool with
  | nil => exact hmore
  | row hrow _ ih => exact .row hrow ih
  | opened hanchor hfirst hentity _ ih => exact .opened hanchor hfirst hentity ih

theorem filter (keep : TxEntity → Bool) (hpool : Chunked pool) :
    Chunked (pool.filter fun row => keep row.entity) := by
  induction hpool with
  | nil => exact .nil
  | @row row rest hrow _ ih =>
    rw [List.filter_cons]
    split
    · exact .row hrow ih
    · exact ih
  | @opened anchor first rest hanchor hfirst hentity _ ih =>
    rw [List.filter_cons, List.filter_cons, hentity]
    split
    · exact .opened hanchor hfirst hentity ih
    exact ih

theorem modify (hentity : ∀ row, (change row).entity = row.entity)
    (hanchor : ∀ row, TxDB.isAnchor (change row) = TxDB.isAnchor row) (hpool : Chunked pool)
    (index : ℕ) : Chunked (pool.modify index change) := by
  induction hpool generalizing index with
  | nil => simpa using Chunked.nil
  | row hrow hrest ih =>
    cases index with
    | zero => exact .row ((hanchor _).trans hrow) hrest
    | succ index => exact .row hrow (ih index)
  | opened hopen hfirst hsame hrest ih =>
    match index with
    | 0 => exact .opened ((hanchor _).trans hopen) hfirst (hsame.trans (hentity _).symm) hrest
    | 1 => exact .opened hopen ((hanchor _).trans hfirst) ((hentity _).trans hsame) hrest
    | index + 2 => exact .opened hopen hfirst hsame (ih index)

/-- The first row of an entity that starts with an anchor follows the anchor. -/
theorem split {entity : TxEntity} {anchor first : TxEntityRow} {rest : List TxEntityRow}
    (hpool : Chunked pool) (hrows : rowsOf pool entity = anchor :: first :: rest)
    (hanchor : TxDB.isAnchor anchor = true) :
    ∃ before after, pool = before ++ anchor :: first :: after ∧ rowsOf before entity = []
      ∧ rowsOf after entity = rest := by
  induction hpool with
  | nil => cases hrows
  | @row row tail hrow _ ih =>
    by_cases hentity : row.entity = entity
    · rw [rowsOf_cons_self hentity] at hrows
      rw [(List.cons.inj hrows).1, hanchor] at hrow
      cases hrow
    rw [rowsOf_cons_of_ne hentity] at hrows
    obtain ⟨before, after, rfl, hbefore, hafter⟩ := ih hrows
    exact ⟨row :: before, after, rfl, (rowsOf_cons_of_ne hentity).trans hbefore, hafter⟩
  | @opened opening following tail hopen hfollowing hsame _ ih =>
    by_cases hentity : opening.entity = entity
    · rw [rowsOf_cons_self hentity, rowsOf_cons_self (hsame.trans hentity)] at hrows
      obtain ⟨hfirst, hrows⟩ := List.cons.inj hrows
      obtain ⟨hsecond, hrest⟩ := List.cons.inj hrows
      exact ⟨[], tail, by rw [hfirst, hsecond, List.nil_append], rfl, hrest⟩
    rw [rowsOf_cons_of_ne hentity, rowsOf_cons_of_ne (by rw [hsame]; exact hentity)] at hrows
    obtain ⟨before, after, rfl, hbefore, hafter⟩ := ih hrows
    refine ⟨opening :: following :: before, after, rfl, ?_, hafter⟩
    rw [rowsOf_cons_of_ne hentity, rowsOf_cons_of_ne (by rw [hsame]; exact hentity), hbefore]

end Chunked

section Seek

variable {pool : List TxEntityRow} {row : TxEntityRow}

theorem seek_eq_none (hrows : rowsOf pool row.entity = []) : seek pool row = none := by
  rw [seek, List.findIdx?_eq_none_iff]
  intro other hother
  rw [decide_eq_false_iff_not]
  rintro ⟨hkey, -⟩
  have hmem : other ∈ rowsOf pool row.entity := mem_rowsOf.mpr ⟨hother, congrArg RowKey.entity hkey⟩
  rw [hrows] at hmem
  cases hmem

theorem seek_append_cons {before after : List TxEntityRow} {found : TxEntityRow}
    (hbefore : rowsOf before row.entity = []) (hkey : found.toRowKey = row.toRowKey)
    (htxId : found.txId = row.txId) : seek (before ++ found :: after) row = some before.length := by
  have hnone := seek_eq_none hbefore
  rw [seek] at hnone ⊢
  rw [List.findIdx?_append, hnone, List.findIdx?_cons, if_pos (decide_eq_true ⟨hkey, htxId⟩)]
  simp

theorem exists_of_seek {index : ℕ} (hseek : seek pool row = some index) :
    ∃ found, pool[index]? = some found ∧ found.toRowKey = row.toRowKey ∧ found.txId = row.txId := by
  obtain ⟨hindex, hfound, -⟩ := List.findIdx?_eq_some_iff_getElem.mp hseek
  exact ⟨pool[index], List.getElem?_eq_getElem hindex, of_decide_eq_true hfound⟩

end Seek

end Amberchain.Wallet
