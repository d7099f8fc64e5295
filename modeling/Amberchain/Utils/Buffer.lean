import Mathlib.Data.List.GetD
import Mathlib.Data.List.Nodup
import Amberchain.Base.LittleEndian

/-!
# Rows behind an index

An `mc_Buffer` in map mode finds its rows through a map from keys to row numbers.  Nothing takes
the old key of an overwritten row out of the map, and an insertion into a `std::map` keeps the
entry that a key has.
-/

namespace Amberchain.Utils

/-- A buffer with its allocated rows, of which those behind the count are left over.  A row is its
key and its value. -/
structure McBuffer where
  m_lpIndex : Bytes → Option ℕ
  m_lpData : List (Bytes × Bytes)
  m_Count : ℕ

namespace McBuffer

def empty : McBuffer :=
  ⟨fun _ => none, [], 0⟩

/-- `mc_MapStringIndex::Add`. -/
def insert (index : Bytes → Option ℕ) (key : Bytes) (value : ℕ) : Bytes → Option ℕ :=
  if index key = none then Function.update index key (some value) else index

def getRow (buffer : McBuffer) (rowID : ℕ) : Bytes × Bytes :=
  buffer.m_lpData.getD rowID ([], [])

def clear (buffer : McBuffer) : McBuffer :=
  { buffer with m_lpIndex := fun _ => none, m_Count := 0 }

def add (buffer : McBuffer) (row : Bytes × Bytes) : McBuffer where
  m_lpIndex := insert buffer.m_lpIndex row.1 buffer.m_Count
  m_lpData := buffer.m_lpData.take buffer.m_Count
    ++ row :: buffer.m_lpData.drop (buffer.m_Count + 1)
  m_Count := buffer.m_Count + 1

/-- A row behind the last one is an error, and nothing is written. -/
def putRow (buffer : McBuffer) (rowID : ℕ) (row : Bytes × Bytes) : McBuffer :=
  if buffer.m_Count ≤ rowID then buffer
  else { buffer with
    m_lpIndex := insert buffer.m_lpIndex row.1 rowID, m_lpData := buffer.m_lpData.set rowID row }

def seek (buffer : McBuffer) (key : Bytes) : Option ℕ :=
  match buffer.m_lpIndex key with
  | some row => if (buffer.getRow row).1 = key then some row else none
  | none => none

/-- The loop of `SetCount`, which reads the memory that it writes. -/
def rebuild (buffer : McBuffer) : ℕ → McBuffer
  | 0 => buffer.clear
  | i + 1 => (buffer.rebuild i).add ((buffer.rebuild i).getRow i)

/-- `SetCount` to a count that is not larger. -/
def setCount (buffer : McBuffer) (count : ℕ) : McBuffer :=
  { if count < buffer.m_Count then buffer.rebuild count else buffer with m_Count := count }

def copyFrom (buffer : McBuffer) (source : List (Bytes × Bytes)) : McBuffer :=
  source.foldl add buffer.clear

def rows (buffer : McBuffer) : List (Bytes × Bytes) :=
  buffer.m_lpData.take buffer.m_Count

def keys (buffer : McBuffer) : List Bytes :=
  buffer.rows.map Prod.fst

/-- The search of a buffer without an index. -/
def scan (buffer : McBuffer) (key : Bytes) : Option ℕ :=
  buffer.rows.findIdx? fun row => row.1 = key

inductive Op where
  | clear
  | add (row : Bytes × Bytes)
  | putRow (rowID : ℕ) (row : Bytes × Bytes)
  | setCount (count : ℕ)
  | copyFrom (source : List (Bytes × Bytes))

def Op.run (buffer : McBuffer) : Op → McBuffer
  | .clear => buffer.clear
  | .add row => buffer.add row
  | .putRow rowID row => buffer.putRow rowID row
  | .setCount count => buffer.setCount count
  | .copyFrom source => buffer.copyFrom source

/-- The operation keeps the keys distinct. -/
def Op.Legal (buffer : McBuffer) : Op → Prop
  | .clear => True
  | .add row => row.1 ∉ buffer.keys
  | .putRow rowID row =>
    rowID < buffer.m_Count → (buffer.getRow rowID).1 = row.1 ∨ row.1 ∉ buffer.keys
  | .setCount count => count ≤ buffer.m_Count
  | .copyFrom source => (source.map Prod.fst).Nodup

/-- The map leads the key of a new row nowhere, or to that row. -/
def Op.Fresh (buffer : McBuffer) : Op → Prop
  | .add row => buffer.m_lpIndex row.1 = none
  | .putRow rowID row => rowID < buffer.m_Count →
    buffer.m_lpIndex row.1 = none ∨ buffer.m_lpIndex row.1 = some rowID
  | _ => True

/-- What holds of each operation in the state where it starts. -/
def Throughout (condition : McBuffer → Op → Prop) (buffer : McBuffer) : List Op → Prop
  | [] => True
  | op :: ops => condition buffer op ∧ Throughout condition (op.run buffer) ops

/-- Every search after every operation finds what a scan finds. -/
def SeeksExactly (buffer : McBuffer) (ops : List Op) : Prop :=
  Throughout (fun buffer op => (op.run buffer).seek = (op.run buffer).scan) buffer ops

structure Indexed (buffer : McBuffer) : Prop where
  fits : buffer.m_Count ≤ buffer.m_lpData.length
  finds : ∀ i row, buffer.rows[i]? = some row → buffer.m_lpIndex row.1 = some i
  inside : ∀ key i, buffer.m_lpIndex key = some i → i < buffer.m_Count

variable {buffer : McBuffer} {row : Bytes × Bytes} {key : Bytes} {i : ℕ}

theorem Indexed.length_rows (hbuffer : buffer.Indexed) : buffer.rows.length = buffer.m_Count := by
  rw [rows, List.length_take, min_eq_left hbuffer.fits]

theorem Indexed.getElem?_rows (hbuffer : buffer.Indexed) (hlt : i < buffer.m_Count) :
    buffer.rows[i]? = some (buffer.getRow i) := by
  have hdata : i < buffer.m_lpData.length := hlt.trans_le hbuffer.fits
  rw [rows, List.getElem?_take_of_lt hlt, getRow, List.getD_eq_getElem?_getD,
    List.getElem?_eq_getElem hdata, Option.getD_some]

theorem scan_eq_some_iff (hbuffer : buffer.Indexed) :
    buffer.scan key = some i ↔ ∃ row, buffer.rows[i]? = some row ∧ row.1 = key := by
  rw [scan, List.findIdx?_eq_some_iff_getElem]
  constructor
  · rintro ⟨hlt, hkey, -⟩
    exact ⟨_, List.getElem?_eq_getElem hlt, of_decide_eq_true hkey⟩
  rintro ⟨row, hrow, hkey⟩
  obtain ⟨hlt, heq⟩ := List.getElem?_eq_some_iff.mp hrow
  refine ⟨hlt, decide_eq_true (heq ▸ hkey), ?_⟩
  intro j hj hother
  have hindex := hbuffer.finds j _ (List.getElem?_eq_getElem (hj.trans hlt))
  rw [of_decide_eq_true hother, ← hkey, hbuffer.finds i row hrow, Option.some.injEq] at hindex
  exact hj.ne hindex.symm

/-- Behind an exact map a search is a scan. -/
theorem Indexed.seek_eq_scan (hbuffer : buffer.Indexed) : buffer.seek = buffer.scan := by
  funext key
  rw [Option.ext_iff]
  intro i
  rw [scan_eq_some_iff hbuffer, seek]
  constructor
  · intro hseek
    split at hseek
    next found hfound =>
      rw [Option.ite_none_right_eq_some] at hseek
      obtain ⟨hkey, hseek⟩ := hseek
      cases hseek
      exact ⟨_, hbuffer.getElem?_rows (hbuffer.inside key _ hfound), hkey⟩
    next => cases hseek
  rintro ⟨row, hrow, rfl⟩
  have hlt : i < buffer.m_Count := by
    rw [← hbuffer.length_rows]
    exact (List.getElem?_eq_some_iff.mp hrow).1
  have hread := Option.some.inj ((hbuffer.getElem?_rows hlt).symm.trans hrow)
  rw [hbuffer.finds i row hrow]
  exact if_pos (congrArg Prod.fst hread)

theorem insert_of_fresh {index : Bytes → Option ℕ} {value : ℕ}
    (hfresh : index key = none ∨ index key = some value) :
    insert index key value = Function.update index key (some value) := by
  rw [insert]
  split
  · rfl
  next hsome => rw [Function.update_eq_self_iff.mpr (hfresh.resolve_left hsome).symm]

/-- One row is written under a key that leads nowhere or to it. -/
theorem Indexed.write {next : McBuffer} (hbuffer : buffer.Indexed)
    (hfresh : buffer.m_lpIndex row.1 = none ∨ buffer.m_lpIndex row.1 = some i)
    (hindex : next.m_lpIndex = insert buffer.m_lpIndex row.1 i)
    (hfits : next.m_Count ≤ next.m_lpData.length) (hlt : i < next.m_Count)
    (hcount : buffer.m_Count ≤ next.m_Count)
    (hrows : ∀ j other, next.rows[j]? = some other →
      j = i ∧ other = row ∨ j ≠ i ∧ buffer.rows[j]? = some other) : next.Indexed := by
  rw [insert_of_fresh hfresh] at hindex
  refine ⟨hfits, ?_, ?_⟩
  · intro j other hother
    rw [hindex]
    rcases hrows j other hother with ⟨rfl, rfl⟩ | ⟨hne, hold⟩
    · exact Function.update_self ..
    have hfound := hbuffer.finds j other hold
    have hkey : other.1 ≠ row.1 := by
      intro heq
      rw [heq] at hfound
      rw [hfound] at hfresh
      rcases hfresh with hnone | hsome
      · cases hnone
      exact hne (Option.some.inj hsome)
    rw [Function.update_of_ne hkey, hfound]
  intro key j hfound
  rw [hindex] at hfound
  by_cases hkey : key = row.1
  · rw [hkey, Function.update_self] at hfound
    cases hfound
    exact hlt
  rw [Function.update_of_ne hkey] at hfound
  exact (hbuffer.inside key j hfound).trans_le hcount

theorem indexed_clear (buffer : McBuffer) : buffer.clear.Indexed :=
  ⟨Nat.zero_le _, fun _ _ => nofun, nofun⟩

theorem Indexed.rows_add (hbuffer : buffer.Indexed) (row : Bytes × Bytes) :
    (buffer.add row).rows = buffer.rows ++ [row] := by
  have hcount : buffer.m_Count + 1 = (buffer.rows ++ [row]).length := by
    rw [List.length_append, hbuffer.length_rows]
    rfl
  calc
    (buffer.add row).rows
        = ((buffer.rows ++ [row]) ++ buffer.m_lpData.drop (buffer.m_Count + 1)).take
            (buffer.m_Count + 1) := by
      rw [List.append_assoc]
      rfl
    _ = buffer.rows ++ [row] := List.take_left' hcount.symm

theorem Indexed.keys_add (hbuffer : buffer.Indexed) (row : Bytes × Bytes) :
    (buffer.add row).keys = buffer.keys ++ [row.1] := by
  rw [keys, hbuffer.rows_add, List.map_append]
  rfl

theorem Indexed.add (hbuffer : buffer.Indexed) (hfresh : buffer.m_lpIndex row.1 = none) :
    (buffer.add row).Indexed := by
  refine hbuffer.write (.inl hfresh) rfl ?_ (Nat.lt_succ_self _) (Nat.le_succ _) ?_
  · have hfits := hbuffer.fits
    simp only [McBuffer.add, List.length_append, List.length_take, List.length_cons]
    omega
  intro j other hother
  have hcount := hbuffer.length_rows
  rw [hbuffer.rows_add, List.getElem?_append] at hother
  split at hother
  · exact .inr ⟨by omega, hother⟩
  rw [List.getElem?_singleton, Option.ite_none_right_eq_some] at hother
  exact .inl ⟨by omega, (Option.some.inj hother.2).symm⟩

theorem Indexed.putRow (hbuffer : buffer.Indexed) (hlt : i < buffer.m_Count)
    (hfresh : buffer.m_lpIndex row.1 = none ∨ buffer.m_lpIndex row.1 = some i) :
    (buffer.putRow i row).Indexed := by
  rw [McBuffer.putRow, if_neg hlt.not_ge]
  refine hbuffer.write hfresh rfl (hbuffer.fits.trans_eq (List.length_set ..).symm) hlt le_rfl ?_
  intro j other hother
  rw [rows, List.take_set, List.getElem?_set] at hother
  split at hother
  next heq =>
    rw [Option.ite_none_right_eq_some] at hother
    exact .inl ⟨heq.symm, (Option.some.inj hother.2).symm⟩
  next hne => exact .inr ⟨fun heq => hne heq.symm, hother⟩

/-- Rows with new keys can be added when the map holds the keys of rows only. -/
theorem Indexed.foldl_add {source : List (Bytes × Bytes)} (hbuffer : buffer.Indexed)
    (htight : ∀ key, buffer.m_lpIndex key ≠ none → key ∈ buffer.keys)
    (hdistinct : (buffer.keys ++ source.map Prod.fst).Nodup) :
    (source.foldl McBuffer.add buffer).Indexed ∧
      (source.foldl McBuffer.add buffer).rows = buffer.rows ++ source := by
  induction source generalizing buffer with
  | nil => exact ⟨hbuffer, (List.append_nil _).symm⟩
  | cons row rest ih =>
    have hkeys := hbuffer.keys_add row
    rw [List.map_cons, List.append_cons, ← hkeys] at hdistinct
    have hfresh : buffer.m_lpIndex row.1 = none := by
      by_contra hsome
      rw [hkeys, List.append_assoc, List.nodup_append] at hdistinct
      exact hdistinct.2.2 _ (htight _ hsome) _ (.head _) rfl
    rw [List.append_cons, ← hbuffer.rows_add]
    refine ih (hbuffer.add hfresh) ?_ hdistinct
    intro key hkey
    rw [hkeys, List.mem_append, List.mem_singleton]
    by_cases heq : key = row.1
    · exact .inr heq
    have hindex : (buffer.add row).m_lpIndex key = buffer.m_lpIndex key := by
      dsimp only [McBuffer.add]
      rw [insert_of_fresh (.inl hfresh), Function.update_of_ne heq]
    exact .inl (htight key (hindex ▸ hkey))

theorem Indexed.copyFrom (buffer : McBuffer) {source : List (Bytes × Bytes)}
    (hdistinct : (source.map Prod.fst).Nodup) :
    (buffer.copyFrom source).Indexed ∧ (buffer.copyFrom source).rows = source :=
  (indexed_clear buffer).foldl_add (fun _ hsome => absurd rfl hsome) hdistinct

/-- The loop of `SetCount` writes each row where it reads it. -/
theorem rebuild_eq (hfits : i ≤ buffer.m_lpData.length) :
    buffer.rebuild i = buffer.copyFrom (buffer.m_lpData.take i) ∧
      (buffer.rebuild i).m_lpData = buffer.m_lpData ∧ (buffer.rebuild i).m_Count = i := by
  induction i with
  | zero => exact ⟨rfl, rfl, rfl⟩
  | succ i ih =>
    obtain ⟨hcopy, hdata, hcount⟩ := ih (Nat.le_of_succ_le hfits)
    have hrow : (buffer.rebuild i).getRow i = buffer.m_lpData[i] := by
      rw [getRow, hdata, List.getD_eq_getElem _ _ hfits]
    have hmemory : buffer.m_lpData.take i ++ buffer.m_lpData[i] :: buffer.m_lpData.drop (i + 1)
        = buffer.m_lpData := by
      rw [← List.drop_eq_getElem_cons hfits, List.take_append_drop]
    rw [rebuild, hrow]
    refine ⟨?_, ?_, ?_⟩
    · rw [List.take_add_one, List.getElem?_eq_getElem hfits, McBuffer.copyFrom, List.foldl_append,
        hcopy]
      rfl
    · rw [McBuffer.add, hdata, hcount, hmemory]
    rw [McBuffer.add, hcount]

theorem Indexed.nodup_keys (hbuffer : buffer.Indexed) : buffer.keys.Nodup := by
  refine List.Pairwise.map _ (fun _ _ hne => hne) (List.pairwise_iff_getElem.mpr ?_)
  intro i j hi hj hlt heq
  have hfirst := hbuffer.finds i _ (List.getElem?_eq_getElem hi)
  rw [heq, hbuffer.finds j _ (List.getElem?_eq_getElem hj)] at hfirst
  exact hlt.ne (Option.some.inj hfirst).symm

theorem Indexed.setCount (hbuffer : buffer.Indexed) {count : ℕ} (hle : count ≤ buffer.m_Count) :
    (buffer.setCount count).Indexed := by
  rw [McBuffer.setCount]
  split
  next hlt =>
    obtain ⟨hcopy, -, hcount⟩ := rebuild_eq (hle.trans hbuffer.fits)
    have hdistinct : ((buffer.m_lpData.take count).map Prod.fst).Nodup := by
      have hfront : buffer.m_lpData.take count = buffer.rows.take count := by
        rw [rows, List.take_take, min_eq_left hle]
      rw [hfront, List.map_take]
      exact hbuffer.nodup_keys.sublist (List.take_sublist _ _)
    have hindexed := (Indexed.copyFrom buffer hdistinct).1
    rw [← hcopy] at hindexed
    generalize buffer.rebuild count = built at hcount hindexed ⊢
    cases hcount
    exact hindexed
  next hge =>
    rw [show count = buffer.m_Count by omega]
    exact hbuffer

theorem Indexed.run (hbuffer : buffer.Indexed) {op : Op} (hlegal : op.Legal buffer)
    (hfresh : op.Fresh buffer) : (op.run buffer).Indexed := by
  cases op with
  | clear => exact indexed_clear buffer
  | add row => exact hbuffer.add hfresh
  | putRow rowID row =>
    by_cases hlt : rowID < buffer.m_Count
    · exact hbuffer.putRow hlt (hfresh hlt)
    rw [Op.run, McBuffer.putRow, if_pos (not_lt.mp hlt)]
    exact hbuffer
  | setCount count => exact hbuffer.setCount hlegal
  | copyFrom source => exact (Indexed.copyFrom buffer hlegal).1

/-- A row is lost behind an entry of its key that leads to another row. -/
theorem seek_ne_scan (row : Bytes × Bytes) (hindex : buffer.m_lpIndex row.1 = some i)
    (hother : (buffer.getRow i).1 ≠ row.1) (hrow : row ∈ buffer.rows) :
    buffer.seek ≠ buffer.scan := by
  intro hsame
  have hseek : buffer.seek row.1 = none := by
    rw [seek, hindex]
    exact if_neg hother
  rw [hsame, scan, List.findIdx?_eq_none_iff] at hseek
  exact of_decide_eq_false (hseek row hrow) rfl

theorem Indexed.getRow_ne (hbuffer : buffer.Indexed) (hnew : key ∉ buffer.keys)
    (hlt : i < buffer.m_Count) : (buffer.getRow i).1 ≠ key := by
  rintro rfl
  exact hnew (List.mem_map_of_mem (List.mem_of_getElem? (hbuffer.getElem?_rows hlt)))

/-- Without a fresh entry the search misses the row that was just written. -/
theorem Indexed.loses (hbuffer : buffer.Indexed) {op : Op} (hlegal : op.Legal buffer)
    (hstale : ¬ op.Fresh buffer) : (op.run buffer).seek ≠ (op.run buffer).scan := by
  cases op with
  | add row =>
    obtain ⟨i, hfound⟩ := Option.ne_none_iff_exists'.mp hstale
    have hlt := hbuffer.inside _ _ hfound
    have hrow : row ∈ (buffer.add row).rows := by
      rw [hbuffer.rows_add]
      exact List.mem_append_right _ (.head _)
    have hkept : (buffer.add row).getRow i = buffer.getRow i := by
      have hread := hbuffer.getElem?_rows hlt
      rw [rows] at hread
      rw [getRow, List.getD_eq_getElem?_getD, McBuffer.add, List.getElem?_append_left, hread]
      · rfl
      exact hlt.trans_eq hbuffer.length_rows.symm
    refine seek_ne_scan row (i := i) ?_ ?_ hrow
    · exact (congrFun (if_neg hstale) _).trans hfound
    exact hkept ▸ hbuffer.getRow_ne hlegal hlt
  | putRow rowID row =>
    obtain ⟨hlt, hnot⟩ := Classical.not_imp.mp hstale
    obtain ⟨hsome, hne⟩ := not_or.mp hnot
    obtain ⟨i, hfound⟩ := Option.ne_none_iff_exists'.mp hsome
    have hother : rowID ≠ i := by
      rintro rfl
      exact hne hfound
    have hnew : row.1 ∉ buffer.keys := by
      refine (hlegal hlt).resolve_left fun heq => hne ?_
      rw [← heq]
      exact hbuffer.finds _ _ (hbuffer.getElem?_rows hlt)
    have hdata : rowID < buffer.m_lpData.length := hlt.trans_le hbuffer.fits
    rw [Op.run, McBuffer.putRow, if_neg hlt.not_ge]
    refine seek_ne_scan row (i := i) ?_ ?_ ?_
    · exact (congrFun (if_neg hsome) _).trans hfound
    · rw [getRow, List.getD_eq_getElem?_getD, List.getElem?_set_ne hother,
        ← List.getD_eq_getElem?_getD]
      exact hbuffer.getRow_ne hnew (hbuffer.inside _ _ hfound)
    rw [rows, List.take_set]
    exact List.mem_set (hlt.trans_eq hbuffer.length_rows.symm) _
  | clear => exact absurd trivial hstale
  | setCount count => exact absurd trivial hstale
  | copyFrom source => exact absurd trivial hstale

end McBuffer

end Amberchain.Utils
