import Amberchain.Wallet.ListSteps
import Mathlib.Data.List.Induction

/-!
# Counting sub-keys down

Before a roll back, each item above the block counts its sub-key lists down.  The counts
wait behind the mempool in rows of their own, to which the roll back cuts the lists.
-/

namespace Amberchain.Wallet

theorem seek_append {front back : List TxEntityRow} {row : TxEntityRow}
    (hfront : seek front row = none) :
    seek (front ++ back) row = (seek back row).map fun index => index + front.length := by
  rw [seek] at hfront
  rw [seek, seek, List.findIdx?_append, hfront, Option.none_or]

theorem modify_append {Item : Type*} (front back : List Item) (index : ℕ) (change : Item → Item) :
    (front ++ back).modify (index + front.length) change = front ++ back.modify index change := by
  induction front with
  | nil => rfl
  | cons item front ih =>
    rw [List.cons_append, List.length_cons, ← Nat.add_assoc, List.modify_succ_cons, ih,
      List.cons_append]

theorem modify_append_cons {Item : Type*} (front : List Item) (item : Item) (back : List Item)
    (change : Item → Item) :
    (front ++ item :: back).modify front.length change = front ++ change item :: back := by
  have hmodify := modify_append front (item :: back) 0 change
  rw [Nat.zero_add] at hmodify
  exact hmodify

namespace TxDB

variable {db : TxDB}

/-- `DecrementSubKey` for some sub-keys, each with its parent. -/
def countDown (db : TxDB) (subKeys : List (TxEntity × TxEntity)) : Outcome :=
  subKeys.foldlM (fun db subKey => db.decrementSubKey 0 subKey.1 subKey.2) db

def lowered (db : TxDB) (done : List TxEntity) (entity : TxEntity) : TxEntityRow :=
  { TxEntityRow.zero entity 0 with
    pos := 1
    flags := (db.storedSubKeyPos entity 0).toNat
    lastSubKeyPos := db.storedSubKeyPos entity 0 - done.count entity }

theorem lowered_key (done : List TxEntity) (entity other : TxEntity) :
    ((db.lowered done other).toRowKey = ({ TxEntityRow.zero entity 0 with pos := 1 } :
      TxEntityRow).toRowKey ∧ (db.lowered done other).txId = ({ TxEntityRow.zero entity 0 with
        pos := 1 } : TxEntityRow).txId) ↔ other = entity := by
  refine ⟨fun hkey => congrArg RowKey.entity hkey.1, fun hsame => ?_⟩
  rw [hsame]
  exact ⟨rfl, rfl⟩

theorem lowered_of_ne (done : List TxEntity) {entity other : TxEntity} (hother : other ≠ entity) :
    db.lowered (done ++ [entity]) other = db.lowered done other := by
  have hcount : (done ++ [entity]).count other = done.count other := by
    rw [List.count_append, List.count_singleton, if_neg (by simpa using Ne.symm hother), Nat.add_zero]
  rw [lowered, lowered, hcount]

theorem lowered_self (done : List TxEntity) (entity : TxEntity) :
    db.lowered (done ++ [entity]) entity = { db.lowered done entity with
      lastSubKeyPos := (db.lowered done entity).lastSubKeyPos - 1 } := by
  have hcount : (done ++ [entity]).count entity = done.count entity + 1 := by
    rw [List.count_append, List.count_singleton_self]
  have hlast : db.storedSubKeyPos entity 0 - (done.count entity + 1 : ℕ) =
      db.storedSubKeyPos entity 0 - done.count entity - 1 := by
    omega
  rw [lowered, hcount, hlast]
  rfl

theorem seek_lowered_of_not_mem (done : List TxEntity) {lists : List TxEntity} {entity : TxEntity}
    (hentity : entity ∉ lists) :
    seek (lists.map (db.lowered done)) { TxEntityRow.zero entity 0 with pos := 1 } = none := by
  rw [seek, List.findIdx?_eq_none_iff]
  intro row hrow
  obtain ⟨other, hother, rfl⟩ := List.mem_map.mp hrow
  rw [decide_eq_false_iff_not]
  intro hkey
  rw [(lowered_key done entity other).mp hkey] at hother
  exact hentity hother

/-- One more count. -/
theorem decrementSubKey_lowered {parent : TxEntity} {stat : TxEntityStat}
    (hkeys : ∀ row ∈ db.memPools 0, row.generation = 0 ∧ row.pos = 0)
    (hstat : db.statOf parent = some stat) (hgeneration : stat.generation = 0)
    {lists done : List TxEntity} (hnodup : lists.Nodup) (hlists : ∀ other, other ∈ lists ↔ other ∈ done)
    (entity : TxEntity) :
    ∃ next : List TxEntity, next.Nodup ∧ (∀ other, other ∈ next ↔ other ∈ done ++ [entity])
      ∧ (db.setMemPool 0 (db.memPools 0 ++ lists.map (db.lowered done))).decrementSubKey 0 parent
          entity =
        .ok (db.setMemPool 0 (db.memPools 0 ++ next.map (db.lowered (done ++ [entity])))) := by
  have hget : ((db.setMemPool 0 (db.memPools 0 ++ lists.map (db.lowered done))).imports 0).getEntity
      (((db.setMemPool 0 (db.memPools 0 ++ lists.map (db.lowered done))).imports 0).findEntity
        parent) = some stat :=
    (statOf_eq parent).trans hstat
  have hfront : seek (db.memPools 0) { TxEntityRow.zero entity 0 with pos := 1 } = none := by
    rw [seek, List.findIdx?_eq_none_iff]
    intro row hrow
    rw [decide_eq_false_iff_not]
    rintro ⟨hkey, -⟩
    have hpos : row.pos = 1 := congrArg RowKey.pos hkey
    rw [(hkeys row hrow).2] at hpos
    cases hpos
  have hset : ∀ pool more, (db.setMemPool 0 pool).setMemPool 0 more = db.setMemPool 0 more := by
    intro pool more
    simp [setMemPool]
  unfold decrementSubKey
  dsimp only
  rw [hget]
  dsimp only
  rw [hgeneration, memPools_setMemPool_self, seek_append hfront]
  by_cases hmem : entity ∈ lists
  · obtain ⟨before, after, rfl, hbefore⟩ := List.eq_append_cons_of_mem hmem
    have hafter : entity ∉ after := (List.nodup_cons.mp (List.nodup_append.mp hnodup).2.1).1
    have hseek : seek ((before ++ entity :: after).map (db.lowered done))
        { TxEntityRow.zero entity 0 with pos := 1 } = some before.length := by
      rw [List.map_append, List.map_cons, seek_append (seek_lowered_of_not_mem done hbefore), seek,
        List.findIdx?_cons, if_pos (decide_eq_true ((lowered_key done entity entity).mpr rfl)),
        Option.map_some, List.length_map, Nat.zero_add]
    have hkept : ∀ others : List TxEntity, entity ∉ others →
        others.map (db.lowered (done ++ [entity])) = others.map (db.lowered done) := by
      intro others hothers
      refine List.map_congr_left fun other hother => lowered_of_ne done ?_
      rintro rfl
      exact hothers hother
    refine ⟨before ++ entity :: after, hnodup, fun other => ?_, ?_⟩
    · rw [hlists, List.mem_append, List.mem_singleton]
      refine ⟨.inl, fun hother => hother.elim id ?_⟩
      rintro rfl
      exact (hlists _).mp hmem
    rw [hseek, Option.map_some]
    dsimp only
    have hmodify := modify_append_cons (before.map (db.lowered done)) (db.lowered done entity)
      (after.map (db.lowered done)) fun row => { row with lastSubKeyPos := row.lastSubKeyPos - 1 }
    rw [List.length_map] at hmodify
    rw [modifyRow, memPools_setMemPool_self, modify_append, hset, List.map_append, List.map_cons,
      List.map_append, List.map_cons, hkept before hbefore, hkept after hafter, lowered_self, hmodify]
  refine ⟨lists ++ [entity], ?_, fun other => ?_, ?_⟩
  · rw [List.nodup_append]
    refine ⟨hnodup, List.nodup_singleton entity, fun other hother same hsame => ?_⟩
    rw [List.mem_singleton.mp hsame]
    rintro rfl
    exact hmem hother
  · rw [List.mem_append, List.mem_append, hlists]
  have hdone : entity ∉ done := fun hentity => hmem ((hlists entity).mpr hentity)
  have hnew : db.lowered (done ++ [entity]) entity = { TxEntityRow.zero entity 0 with
      pos := 1
      flags := (db.storedSubKeyPos entity 0).toNat
      lastSubKeyPos := db.storedSubKeyPos entity 0 - 1 } := by
    rw [lowered, List.count_append, List.count_eq_zero.mpr hdone, List.count_singleton_self]
    rfl
  have hkept : lists.map (db.lowered (done ++ [entity])) = lists.map (db.lowered done) := by
    refine List.map_congr_left fun other hother => lowered_of_ne done ?_
    rintro rfl
    exact hmem hother
  rw [seek_lowered_of_not_mem done hmem]
  rw [addRow, memPools_setMemPool_self, hset, List.map_append, hkept, List.map_singleton, hnew,
    List.append_assoc]
  rfl

/-- The counts wait behind the mempool, one row for each list. -/
theorem exists_countDown {chained : Prop} (hexact : db.Exact chained) {subKeys : List (TxEntity × TxEntity)}
    (hparents : ∀ subKey ∈ subKeys, db.statOf subKey.1 ≠ none) :
    ∃ lists : List TxEntity, lists.Nodup ∧ (∀ entity, entity ∈ lists ↔ entity ∈ subKeys.map Prod.snd)
      ∧ db.countDown subKeys =
        .ok (db.setMemPool 0 (db.memPools 0 ++ lists.map (db.lowered (subKeys.map Prod.snd)))) := by
  induction subKeys using List.reverseRecOn with
  | nil =>
    refine ⟨[], List.nodup_nil, fun _ => Iff.rfl, ?_⟩
    rw [countDown]
    simp [setMemPool, pure, Except.pure]
  | append_singleton subKeys subKey ih =>
    obtain ⟨lists, hnodup, hlists, hdone⟩ := ih fun other hother =>
      hparents other (List.mem_append_left _ hother)
    obtain ⟨stat, hstat⟩ := Option.ne_none_iff_exists'.mp (hparents subKey (by simp))
    have hgeneration := (hexact.subscribed stat (mem_of_statOf hstat)).1
    obtain ⟨next, hnext, hmem, hstep⟩ := decrementSubKey_lowered hexact.keys hstat hgeneration
      hnodup hlists subKey.2
    refine ⟨next, hnext, fun entity => ?_, ?_⟩
    · rw [hmem, List.map_append, List.map_singleton]
    rw [countDown] at hdone
    rw [countDown, List.foldlM_append, hdone, List.map_append]
    exact (bind_pure _).trans hstep

end TxDB

end Amberchain.Wallet

/-!
# Rolling back

A roll back cuts every list by chain position: a sub-key list to its count, and the list of
a subscribed entity to the last row whose block stays.
-/

namespace Amberchain.Wallet

def RowValue.uncounted (value : RowValue) : RowValue :=
  { value with lastSubKeyPos := 0 }

/-- A list is cut when the rows up to `kept` stay, but for the length, and no others do. -/
theorem ListState.cut {chained : Prop} {read after : RowKey → Option RowValue} {block next : ℤ}
    {stat found : Option TxEntityStat} {pool more : List TxEntityRow} {entity : TxEntity}
    {confirmed size kept : ℤ} (hstate : ListState chained read block stat pool entity confirmed size)
    (hnonneg : 0 ≤ kept) (hkept : kept ≤ confirmed)
    (hread : ∀ pos, (after ⟨entity, 0, pos⟩).map RowValue.uncounted =
      if pos ≤ kept then (read ⟨entity, 0, pos⟩).map RowValue.uncounted else none)
    (hbelow : chained → ∀ pos value, pos ≤ kept → read ⟨entity, 0, pos⟩ = some value → value.block ≤ next)
    (hstat : entity.subKey = false →
      (found.map fun stat => (stat.lastPos, stat.lastClearedPos)).getD (0, 0) = (kept, kept))
    (hcount : entity.subKey = true →
      ((after ⟨entity, 0, 1⟩).map fun value => value.lastSubKeyPos).getD 0 = kept)
    (hrows : rowsOf more entity = []) : ListState chained after next found more entity kept kept := by
  have hold : ∀ {pos value}, after ⟨entity, 0, pos⟩ = some value →
      pos ≤ kept ∧ ∃ old, read ⟨entity, 0, pos⟩ = some old ∧ old.block = value.block := by
    intro pos value hvalue
    have hseen := hread pos
    rw [hvalue] at hseen
    split at hseen
    · next hpos =>
      obtain ⟨old, hold, hsame⟩ := Option.map_eq_some_iff.mp hseen.symm
      have hblock := congrArg RowValue.block hsame
      exact ⟨hpos, old, hold, hblock⟩
    · cases hseen
  constructor
  case nonneg => exact hnonneg
  case stored =>
    intro pos
    have hseen : (after ⟨entity, 0, pos⟩).map RowValue.uncounted ≠ none ↔
        after ⟨entity, 0, pos⟩ ≠ none :=
      not_congr Option.map_eq_none_iff
    rw [hread] at hseen
    refine hseen.symm.trans ?_
    split
    · next hpos =>
      refine ((not_congr Option.map_eq_none_iff).trans (hstate.stored pos)).trans ?_
      omega
    · next hpos => exact iff_of_false (fun hnone => hnone rfl) fun hbounds => hpos hbounds.2
  case ordered =>
    intro hchained hchain pos later value nextValue hvalue hnext hpos
    obtain ⟨-, old, holdValue, hblock⟩ := hold hvalue
    obtain ⟨-, other, hotherValue, hotherBlock⟩ := hold hnext
    rw [← hblock, ← hotherBlock]
    exact hstate.ordered hchained hchain pos later old other holdValue hotherValue hpos
  case below =>
    intro hchained _ pos value hvalue
    obtain ⟨hpos, old, holdValue, hblock⟩ := hold hvalue
    rw [← hblock]
    exact hbelow hchained pos old hpos holdValue
  case numbered =>
    rw [waiting, hrows]
    rfl
  case plain => exact hstat
  case counted => exact hcount
  case opened => exact fun _ => .inl hrows

namespace TxDB

variable {db : TxDB} {entity : TxEntity} {confirmed size : ℤ}

/-- What a roll back leaves of a sub-key list on disk. -/
structure CutRows (read latest : RowKey → Option RowValue) (entity : TxEntity) (kept : ℤ) : Prop where
  seen : ∀ pos, (latest ⟨entity, 0, pos⟩).map RowValue.uncounted =
    if pos ≤ kept then (read ⟨entity, 0, pos⟩).map RowValue.uncounted else none
  count : ((latest ⟨entity, 0, 1⟩).map fun value => value.lastSubKeyPos).getD 0 = kept

/-- One list is cut to its count. -/
theorem exists_rollBackSubKey (db : TxDB) (row : TxEntityRow) (count : ℕ)
    (hsubKey : row.entity.subKey = true) (htempPos : row.tempPos = 0) (hpos : row.pos = 1)
    (hgeneration : row.generation = 0)
    (hstored : ∀ pos, db.rows.read ⟨row.entity, 0, pos⟩ ≠ none ↔ 1 ≤ pos ∧ pos ≤ count)
    (hlatest : ∀ pos, db.rows.latest ⟨row.entity, 0, pos⟩ = db.rows.read ⟨row.entity, 0, pos⟩)
    (hflags : row.flags = count) (hnonneg : 0 ≤ row.lastSubKeyPos) (hle : row.lastSubKeyPos ≤ count) :
    ∃ rows, rollBackSubKey db row = .ok { db with rows := rows }
      ∧ (∀ key, rows.read key = db.rows.read key)
      ∧ (∀ key, key.entity ≠ row.entity → rows.latest key = db.rows.latest key)
      ∧ CutRows db.rows.read rows.latest row.entity row.lastSubKeyPos := by
  generalize htrimmed : ((List.range (row.flags - row.lastSubKeyPos).toNat).map fun (offset : ℕ) =>
      row.lastSubKeyPos + offset).foldl
    (fun rows j => rows.delete ⟨row.entity, row.generation, j + 1⟩) db.rows = trimmed
  have hread : ∀ key, trimmed.read key = db.rows.read key := by
    intro key
    rw [← htrimmed, Batched.read_foldl_delete]
  have hbeyond : ∀ pos, row.lastSubKeyPos < pos → pos ≤ count →
      trimmed.latest ⟨row.entity, 0, pos⟩ = none := by
    intro pos hlow hhigh
    rw [← htrimmed]
    refine Batched.latest_foldl_delete _ _ ⟨pos - 1, List.mem_map.mpr
      ⟨(pos - 1 - row.lastSubKeyPos).toNat, List.mem_range.mpr (by omega), by omega⟩, ?_⟩
    rw [hgeneration, Int.sub_add_cancel]
  have hsame : ∀ key : RowKey, ¬ (key.entity = row.entity ∧ row.lastSubKeyPos < key.pos ∧ key.pos ≤ count) →
      trimmed.latest key = db.rows.latest key := by
    intro key hkey
    rw [← htrimmed]
    refine Batched.latest_foldl_delete_of_ne _ _ fun j hj => ?_
    obtain ⟨offset, hoffset, rfl⟩ := List.mem_map.mp hj
    have hbound := List.mem_range.mp hoffset
    rintro rfl
    exact hkey ⟨rfl, by dsimp only; omega, by dsimp only; omega⟩
  have hrows : ∀ pos, pos ≤ row.lastSubKeyPos →
      trimmed.latest ⟨row.entity, 0, pos⟩ = db.rows.read ⟨row.entity, 0, pos⟩ := by
    intro pos hle
    rw [hsame _ fun hkey => by have hlow := hkey.2.1; dsimp only at hlow; omega, hlatest]
  have hmissing : ∀ pos, row.lastSubKeyPos < pos → trimmed.latest ⟨row.entity, 0, pos⟩ = none := by
    intro pos hlow
    by_cases hhigh : pos ≤ count
    · exact hbeyond pos hlow hhigh
    rw [hsame _ fun hkey => hhigh hkey.2.2, hlatest]
    by_contra hnone
    exact hhigh ((hstored pos).mp hnone).2
  unfold rollBackSubKey
  rw [if_pos ⟨hsubKey, htempPos, hpos⟩]
  dsimp only
  rw [htrimmed]
  by_cases hzero : row.lastSubKeyPos = 0
  · rw [if_neg (not_not_intro hzero)]
    refine ⟨trimmed, rfl, hread, fun key hkey => hsame key fun hcut => hkey hcut.1, ?_, ?_⟩
    · intro pos
      split
      · next hle => rw [hrows pos hle]
      · next hlow => rw [hmissing pos (Int.not_le.mp hlow), Option.map_none]
    rw [hmissing 1 (by omega), hzero]
    rfl
  obtain ⟨value, hvalue⟩ := Option.ne_none_iff_exists'.mp ((hstored 1).mpr (by omega))
  rw [if_pos hzero, recount, hgeneration, hread, hvalue]
  refine ⟨_, rfl, hread, fun key hkey => ?_, ?_, ?_⟩
  · rw [Batched.latest_put_of_ne _ fun hsame => hkey (by rw [hsame]), hsame key fun hcut => hkey hcut.1]
  · intro pos
    by_cases hfirst : pos = 1
    · subst hfirst
      rw [Batched.latest_put_self, if_pos (by omega), hvalue]
      rfl
    rw [Batched.latest_put_of_ne _ fun hsame => hfirst (congrArg RowKey.pos hsame)]
    split
    · next hle => rw [hrows pos hle]
    · next hlow => rw [hmissing pos (Int.not_le.mp hlow), Option.map_none]
  rw [Batched.latest_put_self]
  rfl

theorem foldlM_rollBackSubKey_of_pos {pool : List TxEntityRow} (hpos : ∀ row ∈ pool, row.pos = 0) :
    pool.foldlM rollBackSubKey db = .ok db := by
  induction pool with
  | nil => rfl
  | cons row pool ih =>
    have hskip : rollBackSubKey db row = .ok db := by
      unfold rollBackSubKey
      rw [if_neg]
      rintro ⟨-, -, hone⟩
      rw [hpos row (.head _)] at hone
      cases hone
    rw [List.foldlM_cons, hskip]
    exact ih fun other hother => hpos other (.tail _ hother)

/-- The lists that were counted down are cut to their counts, each once. -/
theorem exists_rollBackSubKeys {done lists : List TxEntity} (hnodup : lists.Nodup) (start : TxDB)
    (hread : ∀ key, start.rows.read key = db.rows.read key) (hlatest : ∀ entity ∈ lists, ∀ pos,
      start.rows.latest ⟨entity, 0, pos⟩ = db.rows.read ⟨entity, 0, pos⟩)
    (hlists : ∀ entity ∈ lists, entity.subKey = true
      ∧ done.count entity ≤ db.storedSubKeyPos entity 0
      ∧ ∀ pos, db.rows.read ⟨entity, 0, pos⟩ ≠ none ↔ 1 ≤ pos ∧ pos ≤ db.storedSubKeyPos entity 0) :
    ∃ rows, (lists.map (db.lowered done)).foldlM rollBackSubKey start = .ok { start with rows := rows }
      ∧ (∀ key, rows.read key = db.rows.read key)
      ∧ (∀ key, key.entity ∉ lists → rows.latest key = start.rows.latest key)
      ∧ ∀ entity ∈ lists, CutRows db.rows.read rows.latest entity
        (db.storedSubKeyPos entity 0 - done.count entity) := by
  induction lists generalizing start with
  | nil => exact ⟨start.rows, rfl, hread, fun _ _ => rfl, fun entity hentity => by cases hentity⟩
  | cons entity lists ih =>
    obtain ⟨hnew, hrest⟩ := List.nodup_cons.mp hnodup
    obtain ⟨hsubKey, hcount, hstored⟩ := hlists entity (.head _)
    have hnat : ((db.storedSubKeyPos entity 0).toNat : ℤ) = db.storedSubKeyPos entity 0 := by omega
    obtain ⟨rows, hcut, hrowsRead, hrowsOther, hrowsCut⟩ :=
      exists_rollBackSubKey start (db.lowered done entity) (db.storedSubKeyPos entity 0).toNat
        hsubKey rfl rfl rfl
        (fun pos => by rw [hread, hnat]; exact hstored pos)
        (fun pos => by rw [hread]; exact hlatest entity (.head _) pos) rfl
        (Int.sub_nonneg.mpr hcount) (by rw [hnat]; exact Int.sub_le_self _ (Int.natCast_nonneg _))
    obtain ⟨after, hafter, hafterRead, hafterOther, hafterCut⟩ :=
      ih hrest { start with rows := rows } (fun key => (hrowsRead key).trans (hread key))
        (fun other hother pos => by
          have hne : other ≠ entity := fun hsame => hnew (hsame ▸ hother)
          exact (hrowsOther ⟨other, 0, pos⟩ hne).trans
            (hlatest other (.tail _ hother) pos))
        fun other hother => hlists other (.tail _ hother)
    refine ⟨after, ?_, hafterRead, fun key hkey => ?_, fun other hother => ?_⟩
    · rw [List.map_cons, List.foldlM_cons, hcut]
      exact hafter
    · rw [hafterOther key fun hmem => hkey (.tail _ hmem)]
      exact hrowsOther key fun hsame => hkey (List.mem_cons.mpr (.inl hsame))
    rcases List.mem_cons.mp hother with rfl | hmem
    · have hkept : ∀ pos, after.latest ⟨other, 0, pos⟩ = rows.latest ⟨other, 0, pos⟩ :=
        fun pos => hafterOther _ hnew
      constructor
      · intro pos
        have hseen := hrowsCut.seen pos
        rw [hread] at hseen
        rw [hkept]
        exact hseen
      rw [hkept]
      exact hrowsCut.count
    exact hafterCut other hmem

/-- The last position, from `pos` down, whose block is not above. -/
def keptPos (read : RowKey → Option RowValue) (stat : TxEntityStat) (block : ℤ) : ℕ → ℕ
  | 0 => 0
  | pos + 1 =>
    match read ⟨stat.entity, stat.generation, pos + 1⟩ with
    | none => pos + 1
    | some value => if block < value.block then keptPos read stat block pos else pos + 1

theorem keptPos_le (read : RowKey → Option RowValue) (stat : TxEntityStat) (block : ℤ) (pos : ℕ) :
    keptPos read stat block pos ≤ pos := by
  induction pos with
  | zero => exact Nat.le_refl 0
  | succ pos ih =>
    unfold keptPos
    split
    · exact Nat.le_refl _
    split
    · exact Nat.le_succ_of_le ih
    exact Nat.le_refl _

/-- The row at the last position that is kept does not have a block above. -/
theorem keptPos_block {read : RowKey → Option RowValue} {stat : TxEntityStat} {block : ℤ}
    {pos kept : ℕ} {value : RowValue} (hkept : keptPos read stat block pos = kept)
    (hpos : 0 < kept) (hvalue : read ⟨stat.entity, stat.generation, kept⟩ = some value) :
    value.block ≤ block := by
  induction pos with
  | zero =>
    rw [keptPos] at hkept
    omega
  | succ pos ih =>
    unfold keptPos at hkept
    split at hkept
    · next hnone =>
      rw [← hkept, Int.natCast_add_one, hnone] at hvalue
      cases hvalue
    next found hfound =>
    split at hkept
    · exact ih hkept
    next hstays =>
    rw [← hkept, Int.natCast_add_one, hfound] at hvalue
    cases hvalue
    exact Int.not_lt.mp hstays

/-- The rows after the last position that is kept have a block above. -/
theorem block_of_keptPos_lt {read : RowKey → Option RowValue} {stat : TxEntityStat} {block : ℤ}
    {pos kept later : ℕ} {value : RowValue} (hkept : keptPos read stat block pos = kept)
    (hlow : kept < later) (hhigh : later ≤ pos)
    (hvalue : read ⟨stat.entity, stat.generation, later⟩ = some value) : block < value.block := by
  induction pos with
  | zero => omega
  | succ pos ih =>
    unfold keptPos at hkept
    split at hkept
    · omega
    next found hfound =>
    split at hkept
    · next habove =>
      by_cases hlast : later = pos + 1
      · rw [hlast, Int.natCast_add_one, hfound] at hvalue
        cases hvalue
        exact habove
      · exact ih hkept (by omega)
    omega

/-- The loop over the positions of one list. -/
theorem exists_trimRows (stat : TxEntityStat) (block : ℤ) {before after : List TxEntityStat} (pos : ℕ)
    {db : TxDB} {found : TxEntityStat}
    (hentities : (db.imports 0).entities = before ++ found :: after) (hlast : found.lastPos = pos)
    (hstored : ∀ below : ℕ, 1 ≤ below → below ≤ pos →
      db.rows.read ⟨stat.entity, stat.generation, below⟩ ≠ none) :
    ∃ trimmed, trimRows 0 before.length stat block pos db = .ok trimmed
      ∧ trimmed.imports 0 = { db.imports 0 with entities := before ++
          { found with lastPos := keptPos db.rows.read stat block pos } :: after }
      ∧ trimmed.memPools = db.memPools ∧ (∀ key, trimmed.rows.read key = db.rows.read key)
      ∧ ∀ key, trimmed.rows.latest key =
        if key.entity = stat.entity ∧ key.generation = stat.generation
          ∧ keptPos db.rows.read stat block pos < key.pos ∧ key.pos ≤ pos then none
        else db.rows.latest key := by
  induction pos generalizing db found with
  | zero =>
    refine ⟨db, rfl, ?_, rfl, fun _ => rfl, fun key => ?_⟩
    · have hsame : ({ found with lastPos := (0 : ℕ) } : TxEntityStat) = found := by rw [← hlast]
      rw [keptPos, hsame, ← hentities]
    rw [if_neg]
    rintro ⟨-, -, hlow, hhigh⟩
    omega
  | succ pos ih =>
    obtain ⟨value, hvalue⟩ := Option.ne_none_iff_exists'.mp (hstored (pos + 1) (by omega) (Nat.le_refl _))
    rw [Int.natCast_add_one] at hvalue
    unfold trimRows
    rw [hvalue]
    dsimp only
    by_cases habove : block < value.block
    · have hkept : keptPos db.rows.read stat block (pos + 1) = keptPos db.rows.read stat block pos := by
        rw [keptPos, hvalue]
        exact if_pos habove
      rw [if_pos habove, hkept]
      have hentitiesNext : ((({ db with
            rows := db.rows.delete ⟨stat.entity, stat.generation, pos + 1⟩ } : TxDB).modifyEntity 0
          before.length fun stat => { stat with lastPos := pos }).imports 0).entities =
            before ++ { found with lastPos := pos } :: after := by
        rw [imports_modifyEntity, TxImport.modifyEntity]
        rw [hentities, modify_append_cons]
      obtain ⟨trimmed, htrim, himport, hpools, hread, hlatest⟩ := ih hentitiesNext rfl
        fun below hone hbelow => hstored below hone (Nat.le_succ_of_le hbelow)
      refine ⟨trimmed, htrim, ?_, hpools, hread, fun key => ?_⟩
      · rw [himport]
        rfl
      have hdeleted : trimmed.rows.latest key =
          if key.entity = stat.entity ∧ key.generation = stat.generation
            ∧ keptPos db.rows.read stat block pos < key.pos ∧ key.pos ≤ pos then none
          else (db.rows.delete ⟨stat.entity, stat.generation, pos + 1⟩).latest key := hlatest key
      have hle := keptPos_le db.rows.read stat block pos
      rw [hdeleted]
      by_cases hkey : key = ⟨stat.entity, stat.generation, pos + 1⟩
      · subst hkey
        rw [if_neg (by dsimp only; omega), Batched.latest_delete_self, if_pos]
        exact ⟨rfl, rfl, by dsimp only; omega, Int.le_refl _⟩
      rw [Batched.latest_delete_of_ne hkey]
      refine if_congr (and_congr_right fun hentity => and_congr_right fun hgeneration =>
        and_congr_right fun _ => ?_) rfl rfl
      have hne : key.pos ≠ pos + 1 := by
        intro hpos
        rw [← hentity, ← hgeneration, ← hpos] at hkey
        exact hkey rfl
      omega
    have hkept : keptPos db.rows.read stat block (pos + 1) = pos + 1 := by
      rw [keptPos, hvalue]
      exact if_neg habove
    rw [if_neg habove, hkept]
    refine ⟨db, rfl, ?_, rfl, fun _ => rfl, fun key => ?_⟩
    · have hsame : ({ found with lastPos := (pos + 1 : ℕ) } : TxEntityStat) = found := by
        rw [← hlast]
      rw [hsame, ← hentities]
    rw [if_neg]
    rintro ⟨-, -, hlow, hhigh⟩
    omega

def trimStat (read : RowKey → Option RowValue) (block : ℤ) (stat : TxEntityStat) : TxEntityStat :=
  if stat.entity.timeReceived then stat
  else { stat with
    lastPos := keptPos read stat block stat.lastClearedPos.toNat
    lastClearedPos := keptPos read stat block stat.lastClearedPos.toNat }

@[simp]
theorem trimStat_entity (read : RowKey → Option RowValue) (block : ℤ) (stat : TxEntityStat) :
    (trimStat read block stat).entity = stat.entity := by
  unfold trimStat
  split <;> rfl

/-- The rows of one entity that a roll back leaves to the commit. -/
structure Trimmed (read before after : RowKey → Option RowValue) (block : ℤ) (stat : TxEntityStat) :
    Prop where
  kept : stat.entity.timeReceived = false → ∀ pos,
    after ⟨stat.entity, stat.generation, pos⟩ =
      if keptPos read stat block stat.lastClearedPos.toNat < pos
        ∧ pos ≤ stat.lastClearedPos.toNat then none
      else before ⟨stat.entity, stat.generation, pos⟩
  same : stat.entity.timeReceived = true → ∀ pos,
    after ⟨stat.entity, stat.generation, pos⟩ = before ⟨stat.entity, stat.generation, pos⟩

theorem exists_rollBackEntity (block : ℤ) {stat : TxEntityStat} {before after : List TxEntityStat}
    (hentities : (db.imports 0).entities = before ++ stat :: after)
    (hstored : stat.entity.timeReceived = false → 0 ≤ stat.lastClearedPos
      ∧ ∀ pos : ℕ, 1 ≤ pos → pos ≤ stat.lastClearedPos →
        db.rows.read ⟨stat.entity, stat.generation, pos⟩ ≠ none) :
    ∃ trimmed, rollBackEntity 0 block db before.length = .ok trimmed
      ∧ trimmed.imports 0 = { db.imports 0 with
          entities := before ++ trimStat db.rows.read block stat :: after }
      ∧ trimmed.memPools = db.memPools ∧ (∀ key, trimmed.rows.read key = db.rows.read key)
      ∧ (∀ key, key.entity ≠ stat.entity → trimmed.rows.latest key = db.rows.latest key)
      ∧ Trimmed db.rows.read db.rows.latest trimmed.rows.latest block stat := by
  have hget : (db.imports 0).entities[before.length]? = some stat := by
    rw [hentities, List.getElem?_append_right (Nat.le_refl _), Nat.sub_self]
    rfl
  unfold rollBackEntity
  rw [hget]
  dsimp only
  by_cases htime : stat.entity.timeReceived = true
  · rw [if_pos htime]
    refine ⟨db, rfl, ?_, rfl, fun _ => rfl, fun _ _ => rfl, ?_, fun _ _ => rfl⟩
    · rw [trimStat, if_pos htime, ← hentities]
    intro hchain
    rw [htime] at hchain
    cases hchain
  obtain ⟨hnonneg, hrows⟩ := hstored (Bool.eq_false_iff.mpr htime)
  have hnat : (stat.lastClearedPos.toNat : ℤ) = stat.lastClearedPos := by omega
  have hentitiesNext : ((db.modifyEntity 0 before.length fun stat =>
      { stat with lastPos := stat.lastClearedPos }).imports 0).entities =
        before ++ { stat with lastPos := stat.lastClearedPos } :: after := by
    rw [imports_modifyEntity, TxImport.modifyEntity]
    rw [hentities, modify_append_cons]
  obtain ⟨trimmed, htrim, himport, hpools, hread, hlatest⟩ :=
    exists_trimRows stat block stat.lastClearedPos.toNat hentitiesNext hnat.symm
      fun below hone hbelow => hrows below hone (by omega)
  rw [if_neg htime, htrim]
  refine ⟨_, rfl, ?_, hpools, hread, fun key hkey => ?_, fun _ pos => ?_, fun hchain => ?_⟩
  · rw [imports_modifyEntity, himport, TxImport.modifyEntity]
    rw [modify_append_cons, trimStat, if_neg htime]
    rfl
  · refine (hlatest key).trans (if_neg fun hcut => hkey hcut.1)
  · refine (hlatest _).trans (if_congr ?_ rfl rfl)
    exact ⟨fun hcut => hcut.2.2, fun hcut => ⟨rfl, rfl, hcut⟩⟩
  exact (htime hchain).elim

/-- The loop over the entities. -/
theorem exists_rollBackEntities (block : ℤ) {read : RowKey → Option RowValue} :
    ∀ (after before : List TxEntityStat) (db : TxDB),
      (db.imports 0).entities = before ++ after → (after.map fun stat => stat.entity).Nodup →
      (∀ key, db.rows.read key = read key) →
      (∀ stat ∈ after, stat.entity.timeReceived = false → 0 ≤ stat.lastClearedPos
        ∧ ∀ pos : ℕ, 1 ≤ pos → pos ≤ stat.lastClearedPos →
          read ⟨stat.entity, stat.generation, pos⟩ ≠ none) →
      ∃ trimmed, (List.range' before.length after.length).foldlM (rollBackEntity 0 block) db = .ok trimmed
        ∧ trimmed.imports 0 = { db.imports 0 with
            entities := before ++ after.map (trimStat read block) } ∧ trimmed.memPools = db.memPools
        ∧ (∀ key, (∀ stat ∈ after, key.entity ≠ stat.entity) →
          trimmed.rows.latest key = db.rows.latest key)
        ∧ ∀ stat ∈ after, Trimmed read db.rows.latest trimmed.rows.latest block stat
  | [], before, db, hentities, _, _, _ => by
    refine ⟨db, rfl, ?_, rfl, fun _ _ => rfl, fun stat hstat => by cases hstat⟩
    rw [List.map_nil, ← hentities]
  | stat :: after, before, db, hentities, hnodup, hread, hstored => by
    obtain ⟨hnew, hrest⟩ := List.nodup_cons.mp hnodup
    have hsame : db.rows.read = read := funext hread
    obtain ⟨next, hnext, himport, hpools, hnextRead, hother, htrimmed⟩ :=
      exists_rollBackEntity block hentities fun hchain => by
        rw [hsame]
        exact hstored stat (.head _) hchain
    rw [hsame] at himport htrimmed
    obtain ⟨trimmed, htrim, htrimImport, htrimPools, htrimOther, htrimAll⟩ :=
      exists_rollBackEntities block after (before ++ [trimStat read block stat]) next
        (by rw [himport, List.append_assoc, List.singleton_append]) hrest
        (fun key => (hnextRead key).trans (hread key))
        fun other hmem => hstored other (.tail _ hmem)
    have hkeep : ∀ pos, trimmed.rows.latest ⟨stat.entity, stat.generation, pos⟩ =
        next.rows.latest ⟨stat.entity, stat.generation, pos⟩ := fun pos =>
      htrimOther _ fun other hmem hentity => hnew (List.mem_map.mpr ⟨other, hmem, hentity.symm⟩)
    refine ⟨trimmed, ?_, ?_, htrimPools.trans hpools, fun key hkey => ?_, fun other hmem => ?_⟩
    · rw [List.length_cons, List.range'_succ, List.foldlM_cons, hnext]
      rw [List.length_append, List.length_singleton] at htrim
      exact htrim
    · rw [htrimImport, himport, List.map_cons, List.append_assoc, List.singleton_append]
    · rw [htrimOther key fun other hmem => hkey other (.tail _ hmem)]
      exact hother key (hkey stat (.head _))
    rcases List.mem_cons.mp hmem with rfl | hmem
    · constructor
      · intro hchain pos
        rw [hkeep, htrimmed.kept hchain]
      intro htime pos
      rw [hkeep, htrimmed.same htime]
    have hfirst : ∀ pos, next.rows.latest ⟨other.entity, other.generation, pos⟩ =
        db.rows.latest ⟨other.entity, other.generation, pos⟩ := fun pos =>
      hother _ fun hentity => hnew (List.mem_map.mpr ⟨other, hmem, hentity⟩)
    have hlater := htrimAll other hmem
    constructor
    · intro hchain pos
      rw [hlater.kept hchain, hfirst]
    intro htime pos
    rw [hlater.same htime, hfirst]

end TxDB

end Amberchain.Wallet
