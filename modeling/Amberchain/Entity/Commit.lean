import Amberchain.Entity.Insert

/-!
# Committing and rolling back entities

`Commit` gives each entity of the mempool its place in the ledger and each of its
keys a database row; a follow-on also moves the chain position in all rows of its
asset.  `RollBack` reads the ledger backwards and derives from each row which
keys to delete or to put back.
-/

namespace Amberchain.Entity

namespace AssetDB

variable (params : ChainParams) (assets : AssetDB)

def entityWrites (key : EntityKey) (row : EntityRow) (value : EntityDBRow) : List EntityWrite :=
  (key :: row.otherKeys params).map fun key => .row key value

/-- The state of the loop of `Commit`; `size` is the size of the row written
last. -/
structure CommitLoop where
  assets : AssetDB
  size : ℤ
  failed : Bool

/-- The genesis row that a follow-on refers to, from the mempool or from the
ledger, and whether it could be read. -/
def genesisOf (row : EntityRow) : EntityRow × Bool :=
  if row.firstPos < 0 then
    (assets.memPool.getD (-row.firstPos - 1).toNat EntityRow.zero, true)
  else (assets.ledger.getRow row.firstPos, (assets.ledger.row row.firstPos).isSome)

/-- A follow-on of an unconfirmed asset takes its place in the chain, and the
asset's mempool row moves on to it. -/
def linkFollowOn (row genesis : EntityRow) : AssetDB × EntityRow × EntityRow :=
  if row.firstPos < 0 then
    let moved := { genesis with chainPos := assets.pos }
    ({ assets with memPool := assets.memPool.set (-row.firstPos - 1).toNat moved },
      { row with lastPos := genesis.chainPos, firstPos := genesis.firstPos }, moved)
  else (assets, row, genesis)

def rowWrites (row : EntityRow) (genesis : Option EntityRow) : List EntityWrite :=
  .row row.key ⟨row.block, assets.pos, assets.pos, row.entityType⟩ ::
    match genesis with
    | none => []
    | some genesis =>
      entityWrites params genesis.key genesis
        ⟨genesis.block, genesis.firstPos, assets.pos, genesis.entityType⟩

/-- One round of `Commit` for a txid row: its ledger row. -/
def commitTxid (loop : CommitLoop) (index : ℕ) (row : EntityRow) : CommitLoop :=
  let assets := { loop.assets with pos := loop.assets.pos + loop.size }
  let row := { row with prevPos := assets.prevPos }
  let (genesis, readable) := assets.genesisOf row
  let (assets, row, genesis) : AssetDB × EntityRow × Option EntityRow :=
    if row.key.type.isFollowOn then
      let (assets, row, genesis) := assets.linkFollowOn row genesis
      (assets, row, some genesis)
    else
      (assets, { row with firstPos := if row.firstPos < 0 then assets.pos else row.firstPos }, none)
  let row := { row with chainPos := if row.chainPos < 0 then assets.pos else row.chainPos }
  let assets :=
    { assets with
      memPool := assets.memPool.set index row
      prevPos := assets.pos }
  let unreadable := row.key.type.isFollowOn && !readable
  if row.offset < 0 then { assets := assets, size := loop.size, failed := true }
  else if MC_ENT_SCRIPT_ALLOC_SIZE < row.script.length then
    { assets := assets, size := -1, failed := true }
  else
    let assets := { assets with ledger := assets.ledger.setRow assets.pos row }
    if unreadable then { assets := assets, size := row.size, failed := true }
    else
      { assets := { assets with batch := assets.batch ++ assets.rowWrites params row genesis }
        size := row.size
        failed := false }

/-- One round of the loop of `Commit`. -/
def commitRow (loop : CommitLoop) (index : ℕ) : CommitLoop :=
  let row := loop.assets.memPool.getD index EntityRow.zero
  if loop.failed then loop
  else if row.key.type.isTxid then commitTxid params loop index row
  else
    { loop with
      assets :=
        { loop.assets with
          batch := loop.assets.batch ++ loop.assets.rowWrites params row none } }

/-- The loop of `Commit`. -/
def commitLoop : CommitLoop :=
  (List.range assets.memPool.length).foldl (commitRow params)
    { assets := assets, size := 0, failed := false }

def undoWrites (row : EntityRow) : List EntityWrite × Bool :=
  let shortKey := shortTxidKey (shortTxid row.key.key)
  let deletes :=
    [row.key, shortKey]
      -- the flag is tested on the key deleted last, not on the key of the row
      ++ if shortKey.type.isFollowOn then []
        else (row.ref.map refKey).toList ++ ((row.name params).map nameKey).toList
  if row.key.type.isFollowOn then
    let genesis := assets.ledger.getRow row.firstPos
    match assets.db.rows (txidKey genesis.key.key) with
    | none => (deletes.map .delete, false)
    | some dbRow =>
      (deletes.map .delete ++ entityWrites params (txidKey genesis.key.key) genesis
        { dbRow with chainPos := row.lastPos }, true)
  else (deletes.map .delete, true)

/-- The loop of `RollBack` from a position downwards: the writes, the position of
the last row that stays, and whether all was undone.  Positions fall along the
ledger, so the position bounds the number of rounds. -/
def rollBackLoop (block : ℤ) : ℕ → ℤ → List EntityWrite → List EntityWrite × ℤ × Bool
  | 0, pos, batch => (batch, pos, true)
  | fuel + 1, pos, batch =>
    if pos ≤ 0 then (batch, pos, true)
    else
      let row := assets.ledger.getRow pos
      if row.block ≤ block then (batch, pos, true)
      else
        let (writes, found) := assets.undoWrites params row
        if found then rollBackLoop block fuel row.prevPos (batch ++ writes)
        else (batch ++ writes, pos, false)

def rollBack (block : ℤ) : AssetDB × Option McError :=
  let assets := assets.clearMemPool
  let (batch, prevPos, found) :=
    assets.rollBackLoop params block (assets.prevPos.toNat + 1) assets.prevPos assets.batch
  if found then
    let header : EntityHeader := ⟨block, prevPos⟩
    ({ assets with
        db := assets.db.commit (batch ++ [.header header])
        batch := []
        ledger := { assets.ledger with header := some header }
        block := block
        prevPos := prevPos
        pos := assets.ledger.behind prevPos }, none)
  else ({ assets with batch := batch, prevPos := prevPos }, some .internalError)

def commit : AssetDB × Option McError :=
  let loop := assets.commitLoop params
  let assets := { loop.assets with pos := loop.assets.pos + loop.size }
  if loop.failed then ((assets.rollBack params assets.block).1, some .internalError)
  else
    let header : EntityHeader := ⟨assets.block + 1, assets.prevPos⟩
    ({ assets with
        db := assets.db.commit (assets.batch ++ [.header header])
        batch := []
        ledger := { assets.ledger with header := some header }
        memPool := []
        block := assets.block + 1 }, none)

end AssetDB

end Amberchain.Entity

/-!
# One row of a commit

A txid row is linked into its chain, put into the ledger behind the row before,
and its writes join the batch.  What becomes of the row is said here once, for
the proofs about the loop.
-/

namespace Amberchain.Entity

def EntityRow.unlinked (row : EntityRow) : EntityRow :=
  { row with prevPos := 0, firstPos := 0, lastPos := 0, chainPos := 0 }

namespace AssetDB

namespace CommitLoop

variable (loop : CommitLoop) (row : EntityRow)

def nextPos : ℤ :=
  loop.assets.pos + loop.size

/-- The mempool row that an unconfirmed follow-on refers to. -/
def memPoolGenesis : EntityRow :=
  loop.assets.memPool.getD (-row.firstPos - 1).toNat EntityRow.zero

def linked : EntityRow :=
  if row.key.type.isFollowOn then
    if row.firstPos < 0 then
      { row with
        lastPos := (loop.memPoolGenesis row).chainPos
        firstPos := (loop.memPoolGenesis row).firstPos }
    else row
  else { row with firstPos := if row.firstPos < 0 then loop.nextPos else row.firstPos }

def placedRow : EntityRow :=
  { loop.linked row with
    prevPos := loop.assets.prevPos
    chainPos := if row.chainPos < 0 then loop.nextPos else row.chainPos }

def genesisRow : Option EntityRow :=
  if row.key.type.isFollowOn then
    if row.firstPos < 0 then some { loop.memPoolGenesis row with chainPos := loop.nextPos }
    else some (loop.assets.ledger.getRow row.firstPos)
  else none

def placedMemPool (index : ℕ) : List EntityRow :=
  (if row.key.type.isFollowOn ∧ row.firstPos < 0 then
      loop.assets.memPool.set (-row.firstPos - 1).toNat
        { loop.memPoolGenesis row with chainPos := loop.nextPos }
    else loop.assets.memPool).set index (loop.placedRow row)

def readable : Bool :=
  !row.key.type.isFollowOn || decide (row.firstPos < 0)
    || (loop.assets.ledger.row row.firstPos).isSome

@[simp]
theorem placedRow_unlinked : (loop.placedRow row).unlinked = row.unlinked := by
  unfold placedRow linked
  split
  · split <;> rfl
  rfl

@[simp]
theorem placedRow_key : (loop.placedRow row).key = row.key := by
  have hsame : (loop.placedRow row).unlinked.key = row.unlinked.key := by simp
  exact hsame

@[simp]
theorem placedRow_block : (loop.placedRow row).block = row.block := by
  have hsame : (loop.placedRow row).unlinked.block = row.unlinked.block := by simp
  exact hsame

theorem map_unlinked_set {rows : List EntityRow} {index : ℕ} {row : EntityRow}
    (hrow : ∀ old, rows[index]? = some old → row.unlinked = old.unlinked) :
    (rows.set index row).map EntityRow.unlinked = rows.map EntityRow.unlinked := by
  apply List.ext_getElem?
  intro at'
  rw [List.getElem?_map, List.getElem?_map, List.getElem?_set]
  split
  · rename_i heq
    subst heq
    cases hold : rows[index]? with
    | none =>
      rw [if_neg (by simpa using hold)]
    | some old =>
      have hlt := (List.getElem?_eq_some_iff.mp hold).1
      rw [if_pos hlt, Option.map_some, Option.map_some, hrow old hold]
  rfl

theorem map_unlinked_placedMemPool {index : ℕ} (hrow : loop.assets.memPool[index]? = some row) :
    (loop.placedMemPool row index).map EntityRow.unlinked =
      loop.assets.memPool.map EntityRow.unlinked := by
  unfold placedMemPool
  split
  · have hgenesis : (loop.assets.memPool.set (-row.firstPos - 1).toNat
        { loop.memPoolGenesis row with chainPos := loop.nextPos }).map EntityRow.unlinked =
          loop.assets.memPool.map EntityRow.unlinked := by
      refine map_unlinked_set fun old hold => ?_
      unfold memPoolGenesis
      rw [List.getD_eq_getElem?_getD, hold]
      rfl
    rw [map_unlinked_set, hgenesis]
    intro old hold
    have hget := congrArg (fun rows : List EntityRow => rows[index]?) hgenesis
    simp only [List.getElem?_map, hold, hrow, Option.map_some, Option.some.injEq] at hget
    rw [placedRow_unlinked, hget]
  refine map_unlinked_set fun old hold => ?_
  rw [hrow] at hold
  cases hold
  exact loop.placedRow_unlinked row

end CommitLoop

variable (params : ChainParams)

/-- One round of `Commit` for a txid row. -/
theorem commitTxid_eq (loop : CommitLoop) (index : ℕ) (row : EntityRow) :
    commitTxid params loop index row =
      let placed := loop.placedRow row
      let assets :=
        { loop.assets with
          memPool := loop.placedMemPool row index
          prevPos := loop.nextPos
          pos := loop.nextPos }
      let written := { assets with ledger := assets.ledger.setRow loop.nextPos placed }
      if row.offset < 0 then ⟨assets, loop.size, true⟩
      else if MC_ENT_SCRIPT_ALLOC_SIZE < row.script.length then ⟨assets, -1, true⟩
      else if loop.readable row then
        ⟨{ written with
            batch := written.batch ++ written.rowWrites params placed (loop.genesisRow row) },
          placed.size, false⟩
      else ⟨written, placed.size, true⟩ := by
  unfold commitTxid CommitLoop.placedMemPool CommitLoop.genesisRow CommitLoop.readable
  cases hfollow : row.key.type.isFollowOn with
  | false =>
    have hplaced : loop.placedRow row =
        { row with
          prevPos := loop.assets.prevPos
          firstPos := if row.firstPos < 0 then loop.nextPos else row.firstPos
          chainPos := if row.chainPos < 0 then loop.nextPos else row.chainPos } := by
      unfold CommitLoop.placedRow CommitLoop.linked
      rw [hfollow]
      rfl
    rw [hplaced]
    simp [hfollow, CommitLoop.nextPos]
  | true =>
    by_cases hfirst : row.firstPos < 0
    · have hplaced : loop.placedRow row =
          { row with
            prevPos := loop.assets.prevPos
            lastPos := (loop.memPoolGenesis row).chainPos
            firstPos := (loop.memPoolGenesis row).firstPos
            chainPos := if row.chainPos < 0 then loop.nextPos else row.chainPos } := by
        unfold CommitLoop.placedRow CommitLoop.linked
        rw [hfollow, if_pos rfl, if_pos hfirst]
      rw [hplaced]
      simp [hfollow, hfirst, CommitLoop.nextPos, CommitLoop.memPoolGenesis, genesisOf, linkFollowOn]
    have hplaced : loop.placedRow row =
        { row with
          prevPos := loop.assets.prevPos
          chainPos := if row.chainPos < 0 then loop.nextPos else row.chainPos } := by
      unfold CommitLoop.placedRow CommitLoop.linked
      rw [hfollow, if_pos rfl, if_neg hfirst]
    rw [hplaced]
    have hnot : ¬ ((loop.assets.ledger.row row.firstPos).isSome = true) ↔
        (loop.assets.ledger.row row.firstPos).isSome = false := by
      simp
    by_cases hread : (loop.assets.ledger.row row.firstPos).isSome
    · simp [hfollow, hfirst, hread, CommitLoop.nextPos, genesisOf, linkFollowOn]
    simp [hfollow, hfirst, hnot.mp hread, CommitLoop.nextPos, genesisOf, linkFollowOn]

/-- The loop of `Commit` behind its first rounds. -/
def commitUpTo (assets : AssetDB) (rounds : ℕ) : CommitLoop :=
  (List.range rounds).foldl (commitRow params) ⟨assets, 0, false⟩

theorem commitLoop_eq (assets : AssetDB) :
    assets.commitLoop params = assets.commitUpTo params assets.memPool.length :=
  rfl

theorem commitUpTo_succ (assets : AssetDB) (rounds : ℕ) : assets.commitUpTo params (rounds + 1) =
      commitRow params (assets.commitUpTo params rounds) rounds := by
  unfold commitUpTo
  rw [List.range_succ, List.foldl_append]
  rfl

end AssetDB

end Amberchain.Entity
