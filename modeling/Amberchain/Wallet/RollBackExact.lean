import Amberchain.Wallet.RollBackLists

/-!
# Roll backs keep the lists exact

The sub-keys of the items above the block are counted down first.  The roll back then leaves
of every list by chain position its rows up to the block, and nothing that waited.
-/

namespace Amberchain.Wallet.TxDB

structure CountsDown (db : TxDB) (chained : Prop) (subKeys : List (TxEntity × TxEntity)) (block : ℤ) : Prop where
  parents : ∀ subKey ∈ subKeys, db.statOf subKey.1 ≠ none
  lists : ∀ subKey ∈ subKeys, subKey.2.subKey = true ∧ subKey.2.timeReceived = false
  counts : ∀ entity, (subKeys.map Prod.snd).count entity ≤ db.storedSubKeyPos entity 0
  kept : chained → ∀ entity, entity.subKey = true → entity.timeReceived = false → ∀ pos value,
    pos ≤ db.storedSubKeyPos entity 0 - (subKeys.map Prod.snd).count entity →
    db.rows.read ⟨entity, 0, pos⟩ = some value → value.block ≤ block

variable {chained : Prop} {db : TxDB} {entity : TxEntity} {confirmed size : ℤ}

theorem find?_of_mem_nodup {stats : List TxEntityStat}
    (hnodup : (stats.map fun stat => stat.entity).Nodup) {stat : TxEntityStat} (hstat : stat ∈ stats) :
    (stats.find? fun other => other.entity = stat.entity) = some stat := by
  induction stats with
  | nil => cases hstat
  | cons first stats ih =>
    obtain ⟨hnew, hrest⟩ := List.nodup_cons.mp hnodup
    rcases List.mem_cons.mp hstat with rfl | hmem
    · exact List.find?_cons_of_pos (decide_eq_true rfl)
    rw [List.find?_cons_of_neg, ih hrest hmem]
    rw [decide_eq_true_eq]
    intro hsame
    exact hnew (List.mem_map.mpr ⟨stat, hmem, hsame.symm⟩)

/-- What a roll back leaves of the store; `rows` is what it leaves of the sub-key lists. -/
structure RolledBack (db after : TxDB) (done : List TxEntity) (block : ℤ)
    (rows : RowKey → Option RowValue) : Prop where
  imports : after.imports 0 = ⟨(db.imports 0).importId, block,
    (db.imports 0).entities.map (trimStat db.rows.read block)⟩
  pool : after.memPools 0 = (db.memPools 0).filter fun row => row.entity.timeReceived
  settled : after.rows.Settled
  uncut : ∀ entity ∉ done, ∀ pos, rows ⟨entity, 0, pos⟩ = db.rows.read ⟨entity, 0, pos⟩
  cut : ∀ entity ∈ done, CutRows db.rows.read rows entity
    (db.storedSubKeyPos entity 0 - done.count entity)
  untrimmed : ∀ entity, db.statOf entity = none → ∀ pos,
    after.rows.read ⟨entity, 0, pos⟩ = rows ⟨entity, 0, pos⟩
  trimmed : ∀ stat ∈ (db.imports 0).entities, Trimmed db.rows.read rows after.rows.read block stat

theorem rollBackLists_of_chain (hid : (db.imports 0).importId = 0) (block : ℤ) :
    db.rollBackLists 0 block =
      ((List.range (db.imports 0).entities.length).foldlM (rollBackEntity 0 block)
        { db.setMemPool 0 ((db.memPools 0).filter fun row => row.entity.timeReceived) with
          rawUpdatePool := fun _ => none }).map fun trimmed =>
        { trimmed.setImport 0 { trimmed.imports 0 with block := block } with
          block := block
          rows := trimmed.rows.commit
          defs := trimmed.defs.commit } := by
  unfold rollBackLists
  simp only [if_pos hid]
  rfl

theorem exists_rolledBack (hexact : db.Exact chained) {subKeys : List (TxEntity × TxEntity)} {block : ℤ}
    (hdown : db.CountsDown chained subKeys block) :
    ∃ counted after rows, db.countDown subKeys = .ok counted ∧ counted.rollBack 0 block = .ok after
      ∧ RolledBack db after (subKeys.map Prod.snd) block rows := by
  obtain ⟨lists, hnodup, hlists, hcounted⟩ := exists_countDown hexact hdown.parents
  generalize hstart : db.setMemPool 0 (db.memPools 0 ++
    lists.map (db.lowered (subKeys.map Prod.snd))) = counted at hcounted
  have hpool : counted.memPools 0 =
      db.memPools 0 ++ lists.map (db.lowered (subKeys.map Prod.snd)) := by
    rw [← hstart, memPools_setMemPool_self]
  have himports : counted.imports 0 = db.imports 0 := by
    rw [← hstart]
    rfl
  have hrows : counted.rows = db.rows := by
    rw [← hstart]
    rfl
  have hlatest : ∀ key, counted.rows.latest key = db.rows.read key := by
    intro key
    rw [hrows, Batched.latest_of_settled hexact.settled]
  have hdone : ∀ entity ∈ lists, entity.subKey = true ∧ entity.timeReceived = false := by
    intro entity hentity
    obtain ⟨subKey, hsubKey, rfl⟩ := List.mem_map.mp ((hlists entity).mp hentity)
    exact hdown.lists subKey hsubKey
  have hcountable : ∀ entity ∈ lists, entity.subKey = true
      ∧ (subKeys.map Prod.snd).count entity ≤ db.storedSubKeyPos entity 0
      ∧ ∀ pos, db.rows.read ⟨entity, 0, pos⟩ ≠ none ↔ 1 ≤ pos ∧ pos ≤ db.storedSubKeyPos entity 0 := by
    intro entity hentity
    obtain ⟨confirmed, size, hstate⟩ := hexact.lists entity
    have hcount : db.storedSubKeyPos entity 0 = confirmed := hstate.counted (hdone entity hentity).1
    refine ⟨(hdone entity hentity).1, hdown.counts entity, fun pos => ?_⟩
    rw [hcount]
    exact hstate.stored pos
  obtain ⟨rows, hcut, hread, hother, hcuts⟩ := exists_rollBackSubKeys hnodup counted
    (fun key => by rw [hrows]) (fun entity _ pos => hlatest _) hcountable
  have hfold : (counted.memPools 0).foldlM rollBackSubKey counted =
      .ok { counted with rows := rows } := by
    rw [hpool, List.foldlM_append,
      foldlM_rollBackSubKey_of_pos fun row hrow => (hexact.keys row hrow).2]
    exact hcut
  have hrollBack : counted.rollBack 0 block =
      ({ counted with rows := rows } : TxDB).rollBackLists 0 block := by
    rw [rollBack, hfold]
    rfl
  generalize hfromCounted : ({ counted with rows := rows } : TxDB) = start at hrollBack
  have hstartImports : start.imports 0 = db.imports 0 := by
    rw [← hfromCounted, ← himports]
  have hstartPool : start.memPools 0 =
      db.memPools 0 ++ lists.map (db.lowered (subKeys.map Prod.snd)) := by
    rw [← hfromCounted, ← hpool]
  have hstartRows : start.rows = rows := by rw [← hfromCounted]
  have hstats : ∀ stat ∈ (db.imports 0).entities, stat.entity.timeReceived = false →
      0 ≤ stat.lastClearedPos ∧ ∀ pos : ℕ, 1 ≤ pos → pos ≤ stat.lastClearedPos →
        db.rows.read ⟨stat.entity, stat.generation, pos⟩ ≠ none := by
    intro stat hstat _
    obtain ⟨hgeneration, hsubKey⟩ := hexact.subscribed stat hstat
    obtain ⟨confirmed, size, hstate⟩ := hexact.lists stat.entity
    have hsize := hstate.plain hsubKey
    have hfound : db.statOf stat.entity = some stat := find?_of_mem_nodup hexact.nodup hstat
    rw [hfound, Option.map_some, Option.getD_some, Prod.mk.injEq] at hsize
    rw [hsize.2, hgeneration]
    exact ⟨hstate.nonneg, fun pos hlow hhigh => (hstate.stored pos).mpr ⟨by omega, hhigh⟩⟩
  generalize hcleared : ({ start.setMemPool 0
    ((start.memPools 0).filter fun row => row.entity.timeReceived) with
      rawUpdatePool := fun _ => none } : TxDB) = cleared
  have hclearedImports : cleared.imports 0 = db.imports 0 := by
    rw [← hcleared, ← hstartImports]
    rfl
  have hclearedRows : cleared.rows = rows := by
    rw [← hcleared, ← hstartRows]
    rfl
  have hclearedPool : cleared.memPools 0 = (db.memPools 0).filter fun row => row.entity.timeReceived := by
    have hnone : (lists.map (db.lowered (subKeys.map Prod.snd))).filter
        (fun row => row.entity.timeReceived) = [] := by
      rw [List.filter_eq_nil_iff]
      intro row hrow
      obtain ⟨entity, hentity, rfl⟩ := List.mem_map.mp hrow
      have hchain := (hdone entity hentity).2
      exact Bool.eq_false_iff.mp hchain
    rw [← hcleared]
    rw [memPools_setMemPool_self, hstartPool, List.filter_append, hnone, List.append_nil]
  obtain ⟨trimmed, htrim, htrimImport, htrimPools, htrimOther, htrimAll⟩ :=
    exists_rollBackEntities block (db.imports 0).entities [] cleared (by rw [hclearedImports]; rfl)
      hexact.nodup (fun key => by rw [hclearedRows, hread]) hstats
  have hid : (start.imports 0).importId = 0 := by rw [hstartImports, hexact.chainImport]
  have hrolled : counted.rollBack 0 block =
      .ok { trimmed.setImport 0 { trimmed.imports 0 with block := block } with
        block := block
        rows := trimmed.rows.commit
        defs := trimmed.defs.commit } := by
    rw [List.length_nil] at htrim
    rw [hrollBack, rollBackLists_of_chain hid, hcleared, hstartImports, List.range_eq_range', htrim]
    rfl
  refine ⟨counted, _, rows.latest, hcounted, hrolled, ?_⟩
  constructor
  case imports =>
    rw [hclearedImports] at htrimImport
    refine (@imports_setImport_self trimmed _).trans ?_
    rw [htrimImport]
    rfl
  case pool => exact (congrFun htrimPools 0).trans hclearedPool
  case settled => exact Batched.settled_commit
  case uncut =>
    intro entity hentity pos
    rw [hother _ fun hmem => hentity ((hlists entity).mp hmem)]
    exact hlatest _
  case cut => exact fun entity hentity => hcuts entity ((hlists entity).mpr hentity)
  case untrimmed =>
    intro entity hnone pos
    have hunsubscribed : ∀ stat ∈ (db.imports 0).entities, entity ≠ stat.entity := by
      intro stat hstat hsame
      have hfound : db.statOf stat.entity = some stat := find?_of_mem_nodup hexact.nodup hstat
      rw [← hsame, hnone] at hfound
      cases hfound
    have hkept := htrimOther ⟨entity, 0, pos⟩ hunsubscribed
    rw [hclearedRows] at hkept
    exact hkept
  case trimmed =>
    intro stat hstat
    have hall := htrimAll stat hstat
    rw [hclearedRows] at hall
    exact hall

section Lists

variable {after : TxDB} {subKeys : List (TxEntity × TxEntity)} {block : ℤ}
  {rows : RowKey → Option RowValue}

theorem RolledBack.statOf (hrolled : RolledBack db after (subKeys.map Prod.snd) block rows)
    (entity : TxEntity) :
    after.statOf entity = (db.statOf entity).map (trimStat db.rows.read block) := by
  have htest : (fun stat : TxEntityStat => decide (stat.entity = entity)) ∘
      trimStat db.rows.read block = fun stat => decide (stat.entity = entity) := by
    funext stat
    rw [Function.comp_apply, trimStat_entity]
  rw [TxDB.statOf, TxDB.statOf, hrolled.imports]
  rw [List.find?_map, htest]

theorem RolledBack.timeReceived (hexact : db.Exact chained) (hdown : db.CountsDown chained subKeys block)
    (hrolled : RolledBack db after (subKeys.map Prod.snd) block rows)
    (hstate : db.ListExact chained entity confirmed size) (htime : entity.timeReceived = true) :
    after.ListExact chained entity confirmed size := by
  have huncounted : entity ∉ subKeys.map Prod.snd := by
    intro hmem
    obtain ⟨subKey, hsubKey, rfl⟩ := List.mem_map.mp hmem
    rw [(hdown.lists subKey hsubKey).2] at htime
    cases htime
  have hread : ∀ pos, after.rows.read ⟨entity, 0, pos⟩ = db.rows.read ⟨entity, 0, pos⟩ := by
    intro pos
    rw [← hrolled.uncut entity huncounted]
    cases hstat : db.statOf entity with
    | none => exact hrolled.untrimmed entity hstat pos
    | some stat =>
      have hentity := entity_of_statOf hstat
      have hmem := mem_of_statOf hstat
      have hsame := (hrolled.trimmed stat hmem).same (by rw [hentity, htime]) pos
      rw [hentity, (hexact.subscribed stat hmem).1] at hsame
      exact hsame
  have hstat : after.statOf entity = db.statOf entity := by
    rw [hrolled.statOf]
    cases hfound : db.statOf entity with
    | none => rfl
    | some stat => rw [Option.map_some, trimStat, if_pos (by rw [entity_of_statOf hfound, htime])]
  refine ListState.congr hstate hread (fun hchain => ?_) (fun _ => hstat) ?_
  · rw [htime] at hchain
    cases hchain
  rw [hrolled.pool, rowsOf_filter, if_pos htime]

structure Kept (db after : TxDB) (chained : Prop) (entity : TxEntity) (confirmed kept : ℤ) : Prop where
  le : kept ≤ confirmed
  list : after.ListExact chained entity kept kept
  seen : ∀ pos, (after.rows.read ⟨entity, 0, pos⟩).map RowValue.uncounted =
    if pos ≤ kept then (db.rows.read ⟨entity, 0, pos⟩).map RowValue.uncounted else none

theorem RolledBack.subKey (hexact : db.Exact chained) (hdown : db.CountsDown chained subKeys block)
    (hrolled : RolledBack db after (subKeys.map Prod.snd) block rows)
    (hstate : db.ListExact chained entity confirmed size) (hsubKey : entity.subKey = true)
    (hchain : entity.timeReceived = false) :
    Kept db after chained entity confirmed (confirmed - (subKeys.map Prod.snd).count entity) := by
  have hstored : db.storedSubKeyPos entity 0 = confirmed := hstate.counted hsubKey
  have hcounts := hdown.counts entity
  have hkept := fun hchained : chained => hdown.kept hchained entity hsubKey hchain
  rw [hstored] at hcounts hkept
  have hread : ∀ pos, after.rows.read ⟨entity, 0, pos⟩ = rows ⟨entity, 0, pos⟩ := by
    refine hrolled.untrimmed entity ?_
    cases hstat : db.statOf entity with
    | none => rfl
    | some stat =>
      have hplain := (hexact.subscribed stat (mem_of_statOf hstat)).2
      rw [entity_of_statOf hstat, hsubKey] at hplain
      cases hplain
  have hcut : CutRows db.rows.read rows entity
      (confirmed - (subKeys.map Prod.snd).count entity) := by
    by_cases hmem : entity ∈ subKeys.map Prod.snd
    · have hcut := hrolled.cut entity hmem
      rw [hstored] at hcut
      exact hcut
    rw [List.count_eq_zero.mpr hmem, Int.natCast_zero, Int.sub_zero]
    constructor
    · intro pos
      rw [hrolled.uncut entity hmem]
      split
      · rfl
      next hbeyond =>
      rw [Option.map_eq_none_iff]
      by_contra hrow
      exact hbeyond ((hstate.stored pos).mp hrow).2
    rw [hrolled.uncut entity hmem]
    exact hstate.counted hsubKey
  have hseen : ∀ pos, (after.rows.read ⟨entity, 0, pos⟩).map RowValue.uncounted =
      if pos ≤ confirmed - (subKeys.map Prod.snd).count entity then
        (db.rows.read ⟨entity, 0, pos⟩).map RowValue.uncounted
      else none := by
    intro pos
    rw [hread, hcut.seen]
  have himport : (after.imports 0).block = block := by rw [hrolled.imports]
  refine ⟨Int.sub_le_self _ (Int.natCast_nonneg _), ?_, hseen⟩
  unfold ListExact at hstate ⊢
  rw [himport]
  refine hstate.cut (Int.sub_nonneg.mpr hcounts) (Int.sub_le_self _ (Int.natCast_nonneg _)) hseen hkept
    (fun hplain => ?_) (fun _ => ?_) ?_
  · rw [hsubKey] at hplain
    cases hplain
  · rw [hread]
    exact hcut.count
  rw [hrolled.pool, rowsOf_filter, if_neg (Bool.eq_false_iff.mp hchain)]

/-- The list of a subscribed entity, or of none, is cut at the block. -/
theorem RolledBack.plain (hexact : db.Exact chained)
    (hrolled : RolledBack db after (subKeys.map Prod.snd) block rows)
    (hdown : db.CountsDown chained subKeys block)
    (hstate : db.ListExact chained entity confirmed size) (hplain : entity.subKey = false)
    (hchain : entity.timeReceived = false) : ∃ kept, Kept db after chained entity confirmed kept
      ∧ ∀ pos value, kept < pos → db.rows.read ⟨entity, 0, pos⟩ = some value → block < value.block := by
  have huncounted : entity ∉ subKeys.map Prod.snd := by
    intro hmem
    obtain ⟨subKey, hsubKey, rfl⟩ := List.mem_map.mp hmem
    rw [(hdown.lists subKey hsubKey).1] at hplain
    cases hplain
  have himport : (after.imports 0).block = block := by rw [hrolled.imports]
  have hpool : rowsOf (after.memPools 0) entity = [] := by
    rw [hrolled.pool, rowsOf_filter, if_neg (Bool.eq_false_iff.mp hchain)]
  have hsize := hstate.plain hplain
  cases hstat : db.statOf entity with
  | none =>
    rw [hstat] at hsize
    obtain ⟨-, hzero⟩ := Prod.mk.inj hsize
    have hnone : ∀ pos, db.rows.read ⟨entity, 0, pos⟩ = none := by
      intro pos
      by_contra hrow
      have hbounds := (hstate.stored pos).mp hrow
      omega
    have hread : ∀ pos, after.rows.read ⟨entity, 0, pos⟩ = none := by
      intro pos
      rw [hrolled.untrimmed entity hstat, hrolled.uncut entity huncounted, hnone]
    have hseen : ∀ pos, (after.rows.read ⟨entity, 0, pos⟩).map RowValue.uncounted =
        if pos ≤ 0 then (db.rows.read ⟨entity, 0, pos⟩).map RowValue.uncounted else none := by
      intro pos
      rw [hread, hnone]
      split <;> rfl
    refine ⟨0, ⟨hstate.nonneg, ?_, hseen⟩, fun pos value _ hvalue => ?_⟩
    · refine hstate.cut (Int.le_refl _) hstate.nonneg hseen (fun _ pos value _ hvalue => ?_)
        (fun _ => ?_) (fun hsubKey => ?_) hpool
      · rw [hnone] at hvalue
        cases hvalue
      · rw [hrolled.statOf, hstat]
        rfl
      rw [hplain] at hsubKey
      cases hsubKey
    rw [hnone] at hvalue
    cases hvalue
  | some stat =>
    have hentity := entity_of_statOf hstat
    have hmem := mem_of_statOf hstat
    obtain ⟨hgeneration, -⟩ := hexact.subscribed stat hmem
    rw [hstat] at hsize
    obtain ⟨-, hcleared⟩ := Prod.mk.inj hsize
    have hnonneg := hstate.nonneg
    have hnat : (stat.lastClearedPos.toNat : ℤ) = confirmed := by omega
    generalize hkept : keptPos db.rows.read stat block stat.lastClearedPos.toNat = kept
    have hle : kept ≤ stat.lastClearedPos.toNat := by
      rw [← hkept]
      exact keptPos_le _ _ _ _
    have hread : ∀ pos, after.rows.read ⟨entity, 0, pos⟩ =
        if kept < pos ∧ pos ≤ confirmed then none else db.rows.read ⟨entity, 0, pos⟩ := by
      intro pos
      have hrow := (hrolled.trimmed stat hmem).kept (by rw [hentity, hchain]) pos
      rw [hentity, hgeneration, hkept, hnat, hrolled.uncut entity huncounted] at hrow
      exact hrow
    have hseen : ∀ pos, (after.rows.read ⟨entity, 0, pos⟩).map RowValue.uncounted =
        if pos ≤ kept then (db.rows.read ⟨entity, 0, pos⟩).map RowValue.uncounted else none := by
      intro pos
      rw [hread]
      by_cases hpos : pos ≤ kept
      · rw [if_neg (by omega), if_pos hpos]
      split
      · rfl
      next hbeyond =>
      rw [Option.map_eq_none_iff]
      by_contra hrow
      exact hbeyond ⟨by omega, ((hstate.stored pos).mp hrow).2⟩
    have hlast : chained → ∀ (pos : ℤ) value, pos ≤ kept → db.rows.read ⟨entity, 0, pos⟩ = some value →
        value.block ≤ block := by
      intro hchained pos value hpos hvalue
      have hbounds := (hstate.stored pos).mp (by rw [hvalue]; exact Option.some_ne_none _)
      obtain ⟨last, hlastRow⟩ := Option.ne_none_iff_exists'.mp ((hstate.stored kept).mpr (by omega))
      have hlastBlock : last.block ≤ block := by
        refine keptPos_block hkept (by omega) ?_
        rw [hentity, hgeneration]
        exact hlastRow
      exact Int.le_trans (hstate.ordered hchained hchain pos kept value last hvalue hlastRow hpos) hlastBlock
    refine ⟨kept, ⟨by omega, ?_, hseen⟩, fun pos value hpos hvalue => ?_⟩
    · unfold ListExact at hstate ⊢
      rw [himport]
      refine hstate.cut (Int.natCast_nonneg _) (by omega) hseen hlast (fun _ => ?_)
        (fun hsubKey => ?_) hpool
      · rw [hrolled.statOf, hstat, Option.map_some, Option.map_some, Option.getD_some, trimStat,
          if_neg (by rw [hentity, hchain]; exact Bool.false_ne_true), hkept]
      rw [hplain] at hsubKey
      cases hsubKey
    have hbounds := (hstate.stored pos).mp (by rw [hvalue]; exact Option.some_ne_none _)
    have hnatPos : (pos.toNat : ℤ) = pos := by omega
    refine block_of_keptPos_lt hkept (show kept < pos.toNat by omega) (by omega) ?_
    rw [hentity, hgeneration, hnatPos]
    exact hvalue

/-- Counting down and rolling back succeed, and the lists stay exact. -/
theorem exact_rollBack (hexact : db.Exact chained) (hdown : db.CountsDown chained subKeys block) :
    ∃ counted after, db.countDown subKeys = .ok counted ∧ counted.rollBack 0 block = .ok after
      ∧ after.Exact chained := by
  obtain ⟨counted, after, rows, hcounted, hrollBack, hrolled⟩ := exists_rolledBack hexact hdown
  refine ⟨counted, after, hcounted, hrollBack, ?_⟩
  constructor
  case settled => exact hrolled.settled
  case chainImport =>
    rw [hrolled.imports]
    exact hexact.chainImport
  case subscribed =>
    rw [hrolled.imports]
    intro stat hstat
    obtain ⟨old, hold, rfl⟩ := List.mem_map.mp hstat
    have hgeneration : (trimStat db.rows.read block old).generation = old.generation := by
      unfold trimStat
      split <;> rfl
    rw [trimStat_entity, hgeneration]
    exact hexact.subscribed old hold
  case nodup =>
    have hentities : ((db.imports 0).entities.map (trimStat db.rows.read block)).map
        (fun stat => stat.entity) = (db.imports 0).entities.map fun stat => stat.entity := by
      rw [List.map_map]
      exact List.map_congr_left fun stat _ => trimStat_entity ..
    rw [hrolled.imports]
    rw [hentities]
    exact hexact.nodup
  case keys =>
    rw [hrolled.pool]
    exact fun row hrow => hexact.keys row (List.mem_of_mem_filter hrow)
  case chunked =>
    rw [hrolled.pool]
    exact hexact.chunked.filter TxEntity.timeReceived
  case lists =>
    intro entity
    obtain ⟨confirmed, size, hstate⟩ := hexact.lists entity
    cases htime : entity.timeReceived with
    | true => exact ⟨confirmed, size, hrolled.timeReceived hexact hdown hstate htime⟩
    | false =>
      cases hsubKey : entity.subKey with
      | true => exact ⟨_, _, (hrolled.subKey hexact hdown hstate hsubKey htime).list⟩
      | false =>
        obtain ⟨kept, hkept, -⟩ := hrolled.plain hexact hdown hstate hsubKey htime
        exact ⟨kept, kept, hkept.list⟩

end Lists

end Amberchain.Wallet.TxDB
