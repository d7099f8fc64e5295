import Amberchain.Wallet.Waiting

/-!
# Exact lists

What holds of one list in every state: the rows on disk are numbered up to the confirmed
size and those that wait from there to the size, and the size is where `GetListSize` looks
for it.  Adding rows and subscribing keep it.
-/

namespace Amberchain.Wallet

/-- One list, with what is on disk, the height of the import, the statistics of the entity
and the mempool.  Only a chained list is in the order of the blocks. -/
structure ListState (chained : Prop) (read : RowKey → Option RowValue) (block : ℤ)
    (stat : Option TxEntityStat) (pool : List TxEntityRow) (entity : TxEntity)
    (confirmed size : ℤ) : Prop where
  nonneg : 0 ≤ confirmed
  stored : ∀ pos, read ⟨entity, 0, pos⟩ ≠ none ↔ 1 ≤ pos ∧ pos ≤ confirmed
  ordered : chained → entity.timeReceived = false → ∀ pos later value next,
    read ⟨entity, 0, pos⟩ = some value → read ⟨entity, 0, later⟩ = some next → pos ≤ later →
      value.block ≤ next.block
  below : chained → entity.timeReceived = false → ∀ pos value,
    read ⟨entity, 0, pos⟩ = some value → value.block ≤ block
  numbered : Numbered confirmed (waiting pool entity) size
  plain : entity.subKey = false →
    (stat.map fun stat => (stat.lastPos, stat.lastClearedPos)).getD (0, 0) = (size, confirmed)
  counted : entity.subKey = true →
    ((read ⟨entity, 0, 1⟩).map fun value => value.lastSubKeyPos).getD 0 = confirmed
  opened : entity.subKey = true → rowsOf pool entity = [] ∨ ∃ anchor first rest,
    rowsOf pool entity = anchor :: first :: rest ∧ TxDB.isAnchor anchor = true ∧ anchor.txId = 0
      ∧ (∀ row ∈ first :: rest, TxDB.isAnchor row = false) ∧ first.lastSubKeyPos = size

namespace TxDB

def statOf (db : TxDB) (entity : TxEntity) : Option TxEntityStat :=
  (db.imports 0).entities.find? fun stat => stat.entity = entity

def ListExact (db : TxDB) (chained : Prop) (entity : TxEntity) (confirmed size : ℤ) : Prop :=
  ListState chained db.rows.read (db.imports 0).block (db.statOf entity) (db.memPools 0) entity
    confirmed size

structure Exact (db : TxDB) (chained : Prop) : Prop where
  settled : db.rows.Settled
  chainImport : (db.imports 0).importId = 0
  subscribed : ∀ stat ∈ (db.imports 0).entities, stat.generation = 0 ∧ stat.entity.subKey = false
  nodup : ((db.imports 0).entities.map fun stat => stat.entity).Nodup
  keys : ∀ row ∈ db.memPools 0, row.generation = 0 ∧ row.pos = 0
  chunked : Chunked (db.memPools 0)
  lists : ∀ entity, ∃ confirmed size, db.ListExact chained entity confirmed size

end TxDB

theorem getEntity_findEntity (imp : TxImport) (entity : TxEntity) :
    imp.getEntity (imp.findEntity entity) = imp.entities.find? fun stat => stat.entity = entity := by
  rw [TxImport.getEntity, TxImport.findEntity]
  induction imp.entities with
  | nil => rfl
  | cons stat entities ih =>
    rw [List.findIdx?_cons, List.find?_cons]
    by_cases hstat : stat.entity = entity
    · simp [hstat]
    rw [if_neg (by simpa using hstat), ← ih, Option.bind_map]
    simp [hstat]

theorem find?_modify {Item : Type*} {test : Item → Bool} {change : Item → Item}
    (htest : ∀ item, test (change item) = test item) :
    ∀ {items : List Item} {index : ℕ}, items.findIdx? test = some index →
      (items.modify index change).find? test = (items.find? test).map change
  | [], _, hindex => by cases hindex
  | item :: items, index, hindex => by
    rw [List.findIdx?_cons] at hindex
    cases hitem : test item with
    | true =>
      rw [hitem, if_pos rfl, Option.some.injEq] at hindex
      rw [← hindex, List.modify_zero_cons, List.find?_cons_of_pos ((htest item).trans hitem),
        List.find?_cons_of_pos hitem, Option.map_some]
    | false =>
      rw [hitem, if_neg Bool.false_ne_true, Option.map_eq_some_iff] at hindex
      obtain ⟨before, hbefore, rfl⟩ := hindex
      rw [List.modify_succ_cons, List.find?_cons_of_neg (by rw [hitem]; decide),
        List.find?_cons_of_neg (by rw [hitem]; decide), find?_modify htest hbefore]

theorem find?_modify_of_false {Item : Type*} {test : Item → Bool} {change : Item → Item}
    (htest : ∀ item, test (change item) = test item) :
    ∀ {items : List Item} {index : ℕ}, (∀ item, items[index]? = some item → test item = false) →
      (items.modify index change).find? test = items.find? test
  | [], _, _ => by simp
  | item :: items, 0, hitem => by
    have hfalse := hitem item rfl
    rw [List.modify_zero_cons, List.find?_cons_of_neg (by rw [htest, hfalse]; decide),
      List.find?_cons_of_neg (by rw [hfalse]; decide)]
  | item :: items, index + 1, hitem => by
    have hrest : (items.modify index change).find? test = items.find? test :=
      find?_modify_of_false htest hitem
    rw [List.modify_succ_cons, List.find?_cons, List.find?_cons, hrest]

namespace TxDB

variable {chained : Prop} {db : TxDB} {entity : TxEntity} {confirmed size : ℤ}

theorem statOf_eq (entity : TxEntity) :
    (db.imports 0).getEntity ((db.imports 0).findEntity entity) = db.statOf entity :=
  getEntity_findEntity ..

theorem entity_of_statOf {stat : TxEntityStat} (hstat : db.statOf entity = some stat) :
    stat.entity = entity := by
  have htest := List.find?_some hstat
  exact of_decide_eq_true htest

theorem mem_of_statOf {stat : TxEntityStat} (hstat : db.statOf entity = some stat) :
    stat ∈ (db.imports 0).entities :=
  List.mem_of_find?_eq_some hstat

theorem getListSize_eq (entity : TxEntity) : db.getListSize entity =
    ((db.statOf entity).map fun stat => (stat.lastPos, stat.lastClearedPos)).getD (0, 0) := by
  rw [getListSize, statOf_eq]
  cases db.statOf entity <;> rfl

theorem exists_of_findEntity {index : ℕ} (hfind : (db.imports 0).findEntity entity = some index) :
    ∃ stat, (db.imports 0).entities[index]? = some stat ∧ stat.entity = entity
      ∧ db.statOf entity = some stat := by
  obtain ⟨hindex, hentity, -⟩ := List.findIdx?_eq_some_iff_getElem.mp hfind
  have hget : (db.imports 0).entities[index]? = some (db.imports 0).entities[index] :=
    List.getElem?_eq_getElem hindex
  refine ⟨_, hget, of_decide_eq_true hentity, ?_⟩
  rw [← statOf_eq, hfind]
  exact hget

theorem statOf_modifyEntity {index : ℕ} {change : TxEntityStat → TxEntityStat}
    (hchange : ∀ stat, (change stat).entity = stat.entity)
    (hfind : (db.imports 0).findEntity entity = some index) (other : TxEntity) :
    (db.modifyEntity 0 index change).statOf other =
      if other = entity then (db.statOf other).map change else db.statOf other := by
  split
  · next hsame =>
    subst hsame
    exact find?_modify (fun stat => by rw [hchange]) hfind
  next hother =>
  refine find?_modify_of_false (fun stat => by rw [hchange]) fun stat hstat => ?_
  obtain ⟨found, hfound, hentity, -⟩ := exists_of_findEntity hfind
  rw [hstat] at hfound
  cases hfound
  rw [decide_eq_false_iff_not, hentity]
  exact Ne.symm hother

/-- The anchor of a sub-key list is found, with the first row behind it. -/
theorem ListExact.seek_anchor (hexact : db.Exact chained) (hstate : db.ListExact chained entity confirmed size)
    (hsubKey : entity.subKey = true) :
    (seek (db.memPools 0) (TxEntityRow.zero entity 0) = none ∧ size = confirmed
        ∧ rowsOf (db.memPools 0) entity = [])
      ∨ ∃ before anchor first after, db.memPools 0 = before ++ anchor :: first :: after
        ∧ seek (db.memPools 0) (TxEntityRow.zero entity 0) = some before.length
        ∧ rowsOf before entity = [] ∧ anchor.entity = entity ∧ isAnchor anchor = true
        ∧ anchor.txId = 0 ∧ first.entity = entity
        ∧ (∀ row ∈ first :: rowsOf after entity, isAnchor row = false)
        ∧ first.lastSubKeyPos = size ∧ first.tempPos = confirmed + 1 := by
  rcases hstate.opened hsubKey with hnone | ⟨anchor, first, rest, hrows, hanchor, htxId, hfirst, hsize⟩
  · have hnumbered := hstate.numbered
    rw [waiting, hnone] at hnumbered
    exact .inl ⟨seek_eq_none hnone, hnumbered, hnone⟩
  right
  obtain ⟨before, after, hpool, hbefore, hafter⟩ := hexact.chunked.split hrows hanchor
  have hmem : anchor ∈ rowsOf (db.memPools 0) entity ∧ first ∈ rowsOf (db.memPools 0) entity := by
    rw [hrows]
    exact ⟨(.head _), List.mem_cons_of_mem _ (.head _)⟩
  obtain ⟨hanchorPool, hanchorEntity⟩ := mem_rowsOf.mp hmem.1
  obtain ⟨-, hfirstEntity⟩ := mem_rowsOf.mp hmem.2
  obtain ⟨hgeneration, hpos⟩ := hexact.keys anchor hanchorPool
  have hkey : anchor.toRowKey = (TxEntityRow.zero entity 0).toRowKey := by
    rw [RowKey.mk.injEq]
    exact ⟨hanchorEntity, hgeneration, hpos⟩
  refine ⟨before, anchor, first, after, hpool, ?_, hbefore, hanchorEntity, hanchor, htxId,
    hfirstEntity, by rw [hafter]; exact hfirst, hsize, ?_⟩
  · rw [hpool]
    exact seek_append_cons hbefore hkey htxId
  have hnumbered := hstate.numbered
  rw [waiting, hrows, List.filter_cons_of_neg (by simp [hanchor]),
    List.filter_cons_of_pos (by simp [hfirst first (.head _)])] at hnumbered
  exact hnumbered.1

/-- `GetListSize` answers by the state of the list. -/
theorem ListExact.size_eq (hexact : db.Exact chained) (hstate : db.ListExact chained entity confirmed size) :
    db.getGenerationListSize entity 0 = (size, confirmed) := by
  unfold getGenerationListSize
  by_cases hsubKey : entity.subKey = true
  · rw [if_pos hsubKey]
    rcases hstate.seek_anchor hexact hsubKey with ⟨hseek, hsize, -⟩ |
      ⟨before, anchor, first, after, hpool, hseek, -, -, -, -, -, -, hcount, hpos⟩
    · have hstored : db.storedSubKeyPos entity 0 = confirmed := hstate.counted hsubKey
      rw [hseek]
      rw [hstored, hsize]
    have hnext : (db.memPools 0)[before.length + 1]? = some first := by
      rw [hpool, List.getElem?_append_right (Nat.le_add_right _ 1), Nat.add_sub_cancel_left]
      rfl
    rw [hseek]
    dsimp only
    rw [hnext, Option.getD_some, hcount, hpos, Int.add_sub_cancel]
  rw [if_neg hsubKey, getListSize_eq]
  exact hstate.plain (Bool.eq_false_iff.mpr hsubKey)

end TxDB

end Amberchain.Wallet
