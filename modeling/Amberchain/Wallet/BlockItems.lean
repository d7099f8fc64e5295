import Amberchain.Wallet.ListState
import Mathlib.Data.Nat.Count

/-!
# Items up to a block

`GetBlockItemIndex` bisects the confirmed rows of a list for the last one whose block is at
most a height.  Its indexes wrap at 32 bits, and a row that cannot be read leaves the row
buffer as it was.
-/

namespace Amberchain.Wallet.TxDB

variable (db : TxDB)

/-- `GetRow`: the row on disk, else the one that waits in the mempool for this position. -/
def getRow (erow : TxEntityRow) : TxEntityRow :=
  match db.rows.read erow.toRowKey with
  | some value => ⟨erow.toRowKey, value⟩
  | none =>
    match (db.memPools 0).find? fun row => row.tempPos = erow.pos ∧ row.entity = erow.entity with
    | some row => { row with pos := row.tempPos }
    | none => erow

/-- The loop of `GetBlockItemIndex`; none when it does not end within the rounds. -/
def bisect (block : ℤ) : ℕ → ℤ → ℤ → TxEntityRow → Option ℤ
  | 0, _, _, _ => none
  | rounds + 1, first, last, erow =>
    if 1 < (last - first).bmod (2 ^ 32) then
      let next := ((last + first).bmod (2 ^ 32)).tdiv 2
      let erow := db.getRow { erow with pos := next }
      if block < erow.block then bisect block rounds first next erow
      else bisect block rounds next last erow
    else some first

/-- `GetBlockItemIndex` in the chain import, the only one it is called with. -/
def getBlockItemIndex (entity : TxEntity) (block : ℤ) : Option ℤ :=
  match (db.imports 0).getEntity ((db.imports 0).findEntity entity) with
  | none => some 0
  | some stat =>
    let last := (db.getGenerationListSize entity stat.generation).2
    if last ≤ 0 then some 0
    else
      let low := db.getRow { TxEntityRow.zero stat.entity stat.generation with pos := 1 }
      if block < low.block then some 0
      else
        let high := db.getRow { low with pos := last }
        if high.block ≤ block then some last else db.bisect block 32 1 last high

section

variable (entity : TxEntity) (generation confirmed : ℤ)

def BlocksAscend : Prop :=
  ∀ pos later, 1 ≤ pos → pos ≤ later → later ≤ confirmed → ∃ value next,
    db.rows.read ⟨entity, generation, pos⟩ = some value ∧
      db.rows.read ⟨entity, generation, later⟩ = some next ∧ value.block ≤ next.block

def BlockWithin (block pos : ℤ) : Prop :=
  ∃ value, db.rows.read ⟨entity, generation, pos⟩ = some value ∧ value.block ≤ block

instance (block pos : ℤ) : Decidable (db.BlockWithin entity generation block pos) :=
  decidable_of_iff
    ((db.rows.read ⟨entity, generation, pos⟩).any fun value => value.block ≤ block) <| by
    simp [BlockWithin, Option.any_eq_true]

def itemsUpTo (block : ℤ) : ℕ :=
  Nat.count (fun index => db.BlockWithin entity generation block (index + 1)) confirmed.toNat

end

variable {db} {entity : TxEntity} {generation confirmed block first last : ℤ}

theorem itemsUpTo_eq (hfirst : 0 ≤ first) (hlast : first ≤ confirmed)
    (hbelow : ∀ pos, 1 ≤ pos → pos ≤ first → db.BlockWithin entity generation block pos)
    (habove : ∀ pos, first < pos → pos ≤ confirmed → ¬db.BlockWithin entity generation block pos) :
    (db.itemsUpTo entity generation confirmed block : ℤ) = first := by
  have hsplit : confirmed.toNat = first.toNat + (confirmed - first).toNat := by omega
  rw [itemsUpTo, hsplit, Nat.count_add, Nat.count_iff_forall.mpr, Nat.count_iff_forall_not.mpr]
  · omega
  · exact fun index hindex => habove _ (by omega) (by omega)
  exact fun index hindex => hbelow _ (by omega) (by omega)

theorem getRow_of_read {erow : TxEntityRow} {key : RowKey} {value : RowValue}
    (hkey : erow.toRowKey = key) (hread : db.rows.read key = some value) :
    db.getRow erow = ⟨key, value⟩ := by
  rw [getRow, hkey, hread]

theorem ListExact.blocksAscend {chained : Prop} {size : ℤ}
    (hstate : db.ListExact chained entity confirmed size) (hchained : chained)
    (hplain : entity.timeReceived = false) : db.BlocksAscend entity 0 confirmed := by
  intro pos later hpos hlater hconfirmed
  obtain ⟨value, hvalue⟩ :=
    Option.ne_none_iff_exists'.mp ((hstate.stored pos).mpr ⟨hpos, hlater.trans hconfirmed⟩)
  obtain ⟨next, hnext⟩ :=
    Option.ne_none_iff_exists'.mp ((hstate.stored later).mpr ⟨hpos.trans hlater, hconfirmed⟩)
  exact ⟨value, next, hvalue, hnext,
    hstate.ordered hchained hplain pos later value next hvalue hnext hlater⟩

section Ascending

variable (hascend : db.BlocksAscend entity generation confirmed)
include hascend

/-- A confirmed row is found, and tells the side of the height for the rows on its side. -/
theorem BlocksAscend.getRow (block : ℤ) (erow : TxEntityRow) (hentity : erow.entity = entity)
    (hgeneration : erow.generation = generation) (hpos : 1 ≤ erow.pos)
    (hconfirmed : erow.pos ≤ confirmed) :
    (db.getRow erow).entity = entity ∧ (db.getRow erow).generation = generation ∧
      ((db.getRow erow).block ≤ block → ∀ pos, 1 ≤ pos → pos ≤ erow.pos →
        db.BlockWithin entity generation block pos) ∧
      (block < (db.getRow erow).block → ∀ pos, erow.pos ≤ pos → pos ≤ confirmed →
        ¬db.BlockWithin entity generation block pos) := by
  obtain ⟨value, -, hread, -, -⟩ := hascend erow.pos erow.pos hpos (Int.le_refl _) hconfirmed
  rw [getRow_of_read (by rw [← hentity, ← hgeneration]) hread]
  refine ⟨rfl, rfl, fun hblock pos hfirst hle => ?_, fun hblock pos hle hlast => ?_⟩
  · obtain ⟨low, high, hlow, hhigh, hblocks⟩ := hascend pos erow.pos hfirst hle hconfirmed
    cases hread.symm.trans hhigh
    exact ⟨low, hlow, hblocks.trans hblock⟩
  rintro ⟨other, hother, hwithin⟩
  obtain ⟨low, high, hlow, hhigh, hblocks⟩ := hascend erow.pos pos hpos hle hlast
  cases hread.symm.trans hlow
  cases hother.symm.trans hhigh
  exact absurd (hblocks.trans hwithin) (not_le.mpr hblock)

/-- The first index qualifies, the last does not, and each round halves what is between. -/
theorem BlocksAscend.bisect (hbound : confirmed ≤ 2 ^ 30) {rounds : ℕ} {erow : TxEntityRow}
    (hentity : erow.entity = entity) (hgeneration : erow.generation = generation)
    (hfirst : 1 ≤ first) (hlt : first < last) (hlast : last ≤ confirmed)
    (hrounds : 2 * (last - first) ≤ 2 ^ rounds)
    (hbelow : ∀ pos, 1 ≤ pos → pos ≤ first → db.BlockWithin entity generation block pos)
    (habove : ∀ pos, last ≤ pos → pos ≤ confirmed → ¬db.BlockWithin entity generation block pos) :
    db.bisect block rounds first last erow =
      some (db.itemsUpTo entity generation confirmed block : ℤ) := by
  induction rounds generalizing first last erow with
  | zero => omega
  | succ rounds ih =>
    have hdiff : (last - first).bmod (2 ^ 32) = last - first :=
      Int.bmod_eq_of_le (by omega) (by omega)
    have hsum : (last + first).bmod (2 ^ 32) = last + first :=
      Int.bmod_eq_of_le (by omega) (by omega)
    rw [TxDB.bisect, hdiff, hsum, Int.tdiv_eq_ediv_of_nonneg (by omega)]
    dsimp only
    by_cases hmore : 1 < last - first
    · obtain ⟨hentity, hgeneration, hlow, hhigh⟩ := hascend.getRow block
        { erow with pos := (last + first) / 2 } hentity hgeneration (by dsimp; omega) (by dsimp; omega)
      have hhalf : 2 * ((last + first) / 2 - first) ≤ 2 ^ rounds ∧
          2 * (last - (last + first) / 2) ≤ 2 ^ rounds := by
        cases rounds <;> omega
      rw [if_pos hmore]
      split
      · next hblock =>
        exact ih hentity hgeneration hfirst (by omega) (by omega) hhalf.1 hbelow (hhigh hblock)
      next hblock =>
      have hwithin := hlow (not_lt.mp hblock)
      exact ih hentity hgeneration (by omega) (by omega) hlast hhalf.2 hwithin habove
    rw [if_neg hmore, itemsUpTo_eq (by omega) (by omega) hbelow fun pos hpos => habove pos (by omega)]

end Ascending

/-- The number of items up to the height for a subscribed entity, `0` for another. -/
theorem getBlockItemIndex_counts (db : TxDB) (entity : TxEntity) (block : ℤ) :
    (db.statOf entity = none → db.getBlockItemIndex entity block = some 0) ∧
      ∀ stat confirmed, db.statOf entity = some stat →
        (db.getGenerationListSize entity stat.generation).2 = confirmed → confirmed ≤ 2 ^ 30 →
        db.BlocksAscend entity stat.generation confirmed →
        db.getBlockItemIndex entity block =
          some (db.itemsUpTo entity stat.generation confirmed block : ℤ) := by
  unfold getBlockItemIndex
  rw [statOf_eq]
  refine ⟨fun hnone => by rw [hnone], fun stat confirmed hstat hsize hbound hascend => ?_⟩
  rw [hstat]
  dsimp only
  rw [hsize, entity_of_statOf hstat]
  by_cases hempty : confirmed ≤ 0
  · rw [if_pos hempty, itemsUpTo, Int.toNat_of_nonpos hempty]
    rfl
  rw [if_neg hempty]
  obtain ⟨hentity, hgeneration, hlow, hhigh⟩ := hascend.getRow block
    { TxEntityRow.zero entity stat.generation with pos := 1 } rfl rfl (Int.le_refl 1)
    (by dsimp; omega)
  split
  · next hblock =>
    rw [itemsUpTo_eq (Int.le_refl 0) (by omega) (by omega) (hhigh hblock)]
  next hblock =>
  obtain ⟨hentity, hgeneration, hall, hsome⟩ := hascend.getRow block
    { db.getRow { TxEntityRow.zero entity stat.generation with pos := 1 } with pos := confirmed }
    hentity hgeneration (by dsimp; omega) (Int.le_refl _)
  split
  · next hlast =>
    rw [itemsUpTo_eq (by omega : 0 ≤ confirmed) (Int.le_refl _) (hall hlast) (by omega)]
  next hlast =>
  have hbelow := hlow (not_lt.mp hblock)
  have habove := hsome (not_le.mp hlast)
  have hlt : 1 < confirmed := by
    by_contra hone
    exact habove 1 (by dsimp; omega) (by omega) (hbelow 1 (Int.le_refl 1) (Int.le_refl 1))
  exact hascend.bisect hbound hentity hgeneration (Int.le_refl 1) hlt (Int.le_refl _) (by omega)
    hbelow habove

def numbered (entities : List TxEntity) (size : ℤ) : TxDB :=
  { initial with
    imports := fun _ => ⟨0, 0, entities.map fun entity => ⟨entity, 0, 0, size, size⟩⟩
    rows.stored := fun key =>
      if 1 ≤ key.pos ∧ key.pos ≤ size then some ⟨0, key.pos, 0, size, 0⟩ else none }

theorem numbered_ascends (entities : List TxEntity) (size : ℤ) :
    (numbered entities size).BlocksAscend entity 0 size := by
  intro pos later hpos hle hlater
  exact ⟨⟨0, pos, 0, size, 0⟩, ⟨0, later, 0, size, 0⟩, if_pos ⟨hpos, hle.trans hlater⟩,
    if_pos ⟨hpos.trans hle, hlater⟩, hle⟩

theorem getBlockItemIndex_counts_two :
    (numbered [⟨0, 0⟩] 3).getBlockItemIndex ⟨0, 0⟩ 2 = some 2 :=
  (getBlockItemIndex_counts (numbered [⟨0, 0⟩] 3) ⟨0, 0⟩ 2).2 ⟨⟨0, 0⟩, 0, 0, 3, 3⟩ 3 rfl rfl
    (by decide) (numbered_ascends _ 3)

/-- The list of a sub-key has no statistics to be found by, and past `2 ^ 30` items the sum
of the two indexes overflows. -/
theorem getBlockItemIndex_not_counts :
    ((numbered [] 1).BlocksAscend ⟨0, 0x40⟩ 0 1 ∧
      ((numbered [] 1).getGenerationListSize ⟨0, 0x40⟩ 0).2 = 1 ∧
      (numbered [] 1).getBlockItemIndex ⟨0, 0x40⟩ 1 = some 0 ∧
      (numbered [] 1).itemsUpTo ⟨0, 0x40⟩ 0 1 1 = 1) ∧
    (numbered [⟨0, 0⟩] (2 ^ 31 - 1)).BlocksAscend ⟨0, 0⟩ 0 (2 ^ 31 - 1) ∧
      ((numbered [⟨0, 0⟩] (2 ^ 31 - 1)).getGenerationListSize ⟨0, 0⟩ 0).2 = 2 ^ 31 - 1 ∧
      (numbered [⟨0, 0⟩] (2 ^ 31 - 1)).getBlockItemIndex ⟨0, 0⟩ 2 = some 1 ∧
      ((numbered [⟨0, 0⟩] (2 ^ 31 - 1)).itemsUpTo ⟨0, 0⟩ 0 (2 ^ 31 - 1) 2 : ℤ) = 2 := by
  refine ⟨⟨numbered_ascends _ 1, by decide, by decide, by decide⟩, numbered_ascends _ _,
    by decide, by decide +kernel, itemsUpTo_eq (by decide) (by decide) ?_ ?_⟩
  · exact fun pos hpos hle => ⟨_, if_pos ⟨hpos, hle.trans (by decide)⟩, hle⟩
  rintro pos hpos hle ⟨value, hvalue, hblock⟩
  have hone : 1 ≤ pos := (by decide : (1 : ℤ) ≤ 2).trans hpos.le
  cases (if_pos ⟨hone, hle⟩ : _ = some _).symm.trans hvalue
  exact absurd hblock (not_le.mpr hpos)

end Amberchain.Wallet.TxDB
