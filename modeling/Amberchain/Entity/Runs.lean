import Amberchain.Entity.Initialize
import Amberchain.Base.Folding

/-!
# Runs of the entity database

The operations of the node on the database, and what every run from empty files
keeps: both headers point to the end of one chain of ledger rows, and new rows go
behind it.  A rollback that fails leaves `m_PrevPos` at an older row, so the rows
that the next commit links to may be fewer than those of the headers.
-/

namespace Amberchain.Entity

/-- An operation on the database. -/
inductive Op where
  | insertEntity (issue : Issue) (entityType : ℕ)
  | insertAsset (issue : Issue) (quantity : BitVec 64) (name : Bytes) (multiple : BitVec 32)
  | insertAssetFollowOn (issue : Issue) (quantity : BitVec 64) (originalTxid : Hash256)
  | commit
  | rollBack (block : ℤ)
  | clearMemPool
  | restart

namespace AssetDB

variable (params : ChainParams)

def apply (assets : AssetDB) : Op → AssetDB
  | .insertEntity issue entityType => (assets.insertEntity params issue entityType).1
  | .insertAsset issue quantity name multiple =>
    (assets.insertAsset params issue quantity name multiple).1
  | .insertAssetFollowOn issue quantity originalTxid =>
    (assets.insertAssetFollowOn params issue quantity originalTxid).1
  | .commit => (assets.commit params).1
  | .rollBack block => (assets.rollBack params block).1
  | .clearMemPool => assets.clearMemPool
  | .restart => (initializeFrom assets.db assets.ledger).1

/-- The states reached from empty files. -/
inductive Reachable : AssetDB → Prop where
  | start : Reachable (initializeFrom .empty .empty).1
  | apply {assets : AssetDB} (op : Op) (hassets : Reachable assets) :
    Reachable (assets.apply params op)

def Fresh (assets : AssetDB) (rows : List EntityRow) : Prop :=
  (∀ row ∈ rows, row.block = assets.block + 1) ∧
    (assets.memPool = [] → ∃ first ∈ rows.head?, first.key.type.isTxid = true)

def Adds (assets result : AssetDB) : Prop :=
  result = assets ∨
    ∃ rows, assets.Fresh rows ∧ result = { assets with memPool := assets.memPool ++ rows }

variable {params} {assets : AssetDB}

theorem adds_insertKeys {row : EntityRow} (hblock : row.block = assets.block + 1)
    (htype : row.key.type = .txid) (updateMempool : Bool) :
    assets.Adds (assets.insertKeys params row updateMempool).1 := by
  unfold insertKeys
  dsimp only
  split
  · exact .inl rfl
  split
  · refine .inr ⟨keyRows params row, ⟨?_, fun _ => ?_⟩, rfl⟩
    · intro keyRow hmem
      obtain ⟨-, _, rfl⟩ := List.mem_map.mp hmem
      exact hblock
    refine ⟨row, rfl, ?_⟩
    rw [htype]
    rfl
  exact .inl rfl

theorem adds_insertEntity (issue : Issue) (entityType : ℕ) :
    assets.Adds (assets.insertEntity params issue entityType).1 := by
  have hkeys := @adds_insertKeys params assets (assets.entityRow issue entityType) rfl rfl
    issue.updateMempool
  unfold insertEntity
  dsimp only
  split
  · exact .inl rfl
  split
  · rename_i hinsert
    rw [hinsert] at hkeys
    exact hkeys
  rename_i hinsert
  rw [hinsert] at hkeys
  exact hkeys

theorem adds_insertAssetFollowOn (issue : Issue) (quantity : BitVec 64) (originalTxid : Hash256) :
    assets.Adds (assets.insertAssetFollowOn params issue quantity originalTxid).1 := by
  unfold insertAssetFollowOn
  split
  · exact .inl rfl
  split
  · exact .inl rfl
  dsimp only
  split
  · exact .inl rfl
  split
  · exact .inr ⟨[_], ⟨by simp [followOnRow], fun _ => ⟨_, rfl, rfl⟩⟩, rfl⟩
  exact .inl rfl

structure Backed (assets : AssetDB) (log live : Log) : Prop where
  dbHeader : assets.db.header = some ⟨assets.block, log.lastPos⟩
  ledgerHeader : assets.ledger.header = some ⟨assets.block, log.lastPos⟩
  chained : Chained assets.ledger log
  received : ∀ entry ∈ log, entry.row.block ≤ assets.block
  suffix : live <:+ log
  prevPos : assets.prevPos = live.lastPos
  free : log.endPos ≤ assets.pos
  memPool : ∀ row ∈ assets.memPool, row.block = assets.block + 1
  first : ∀ row ∈ assets.memPool.head?, row.key.type.isTxid = true

namespace Backed

variable {log live : Log}

theorem adds (hassets : Backed assets log live) {result : AssetDB}
    (hresult : assets.Adds result) : Backed result log live := by
  rcases hresult with rfl | ⟨rows, ⟨hblock, hfirst⟩, rfl⟩
  · exact hassets
  refine ⟨hassets.dbHeader, hassets.ledgerHeader, hassets.chained, hassets.received,
    hassets.suffix, hassets.prevPos, hassets.free, ?_, ?_⟩
  · intro row hrow
    rcases List.mem_append.mp hrow with hold | hnew
    · exact hassets.memPool row hold
    · exact hblock row hnew
  intro row hrow
  cases hmem : assets.memPool with
  | nil =>
    obtain ⟨first, hhead, htype⟩ := hfirst hmem
    simp only [hmem, List.nil_append] at hrow
    rw [hhead] at hrow
    cases hrow
    exact htype
  | cons old rest =>
    refine hassets.first row ?_
    simp only [hmem, List.cons_append, List.head?_cons] at hrow ⊢
    exact hrow

/-- The fields that `initialized` reads from agreeing files. -/
theorem initialized_eq (hassets : Backed assets log live) : initialized assets.db assets.ledger =
      { assets with
        batch := []
        memPool := []
        prevPos := log.lastPos
        pos := log.endPos } := by
  have hdb : ({ assets.db with header := some ⟨assets.block, log.lastPos⟩ } : EntityDB) =
      assets.db := by
    rw [← hassets.dbHeader]
  have hledger : ({ assets.ledger with header := some ⟨assets.block, log.lastPos⟩ } :
      EntityLedger) = assets.ledger := by
    rw [← hassets.ledgerHeader]
  unfold initialized
  simp only [hassets.dbHeader, hassets.ledgerHeader, Option.getD_some,
    hassets.chained.behind_lastPos, hdb, hledger]

theorem initializeFrom_eq (hassets : Backed assets log live) :
    initializeFrom assets.db assets.ledger = ({ assets with
          batch := []
          memPool := []
          prevPos := log.lastPos
          pos := log.endPos }, none) := by
  rw [initializeFrom_agree hassets.dbHeader hassets.ledgerHeader hassets.chained.readable,
    hassets.initialized_eq]

theorem reopened (hassets : Backed assets log live) : Backed { assets with
        batch := []
        memPool := []
        prevPos := log.lastPos
        pos := log.endPos } log log where
  dbHeader := hassets.dbHeader
  ledgerHeader := hassets.ledgerHeader
  chained := hassets.chained
  received := hassets.received
  suffix := List.suffix_rfl
  prevPos := rfl
  free := Int.le_refl _
  memPool := fun _ hrow => absurd hrow List.not_mem_nil
  first := fun _ hrow => by cases hrow

/-- Without its mempool, the database is at the end of its log, unless nothing was
in the mempool. -/
theorem clearMemPool (hassets : Backed assets log live) :
    ∃ live, Backed assets.clearMemPool log live ∧ assets.clearMemPool.memPool = [] ∧
      (assets.memPool ≠ [] → live = log ∧ assets.clearMemPool =
            { assets with memPool := [], prevPos := log.lastPos, pos := log.endPos }) := by
  unfold AssetDB.clearMemPool
  by_cases hempty : assets.memPool = []
  · rw [if_pos hempty]
    exact ⟨live, hassets, hempty, fun hne => absurd hempty hne⟩
  rw [if_neg hempty]
  simp only [hassets.ledgerHeader, Option.getD_some, hassets.chained.behind_lastPos]
  refine ⟨log, ?_, trivial, fun _ => ⟨rfl, trivial⟩⟩
  exact ⟨hassets.dbHeader, hassets.ledgerHeader, hassets.chained, hassets.received,
    List.suffix_rfl, rfl, Int.le_refl _, fun _ hrow => absurd hrow List.not_mem_nil,
    fun _ hrow => by cases hrow⟩

end Backed

end AssetDB

end Amberchain.Entity

/-!
# The register of issues

What the entity database is for, with no word about how it does it: a register of
the accepted issues, confirmed and pending, which knows for each asset how much
of it there is and under which keys each entity is found.
-/

namespace Amberchain.Entity

def EntityRow.keys (params : ChainParams) (row : EntityRow) : List EntityKey :=
  if row.key.type.isFollowOn then [row.key] else row.key :: row.otherKeys params

structure Accepted where
  key : EntityKey
  original : Hash256
  quantity : BitVec 64
  block : ℤ
  offset : ℤ
  script : Bytes

namespace Accepted

def row (issue : Accepted) : EntityRow :=
  { EntityRow.zero with
    key := issue.key
    block := issue.block
    offset := issue.offset
    quantity := issue.quantity
    script := issue.script }

def isGenesis (issue : Accepted) : Bool :=
  issue.key.type = .txid

def keys (params : ChainParams) (issue : Accepted) : List EntityKey :=
  issue.row.keys params

end Accepted

def EntityRow.accepted (row : EntityRow) (original : Hash256) : Accepted where
  key := row.key
  original := original
  quantity := row.quantity
  block := row.block
  offset := row.offset
  script := row.script

/-- The confirmed issues, the newest first, and the pending ones, the oldest
first. -/
structure Register where
  confirmed : List Accepted
  pending : List Accepted

namespace Register

def empty : Register :=
  ⟨[], []⟩

def accept (register : Register) (issue : Accepted) : Register :=
  { register with pending := register.pending ++ [issue] }

def confirm (register : Register) : Register :=
  ⟨register.pending.reverse ++ register.confirmed, []⟩

def clear (register : Register) : Register :=
  { register with pending := [] }

def rollBack (register : Register) (block : ℤ) : Register :=
  ⟨register.confirmed.filter fun issue => issue.block ≤ block, []⟩

def issues (register : Register) : List Accepted :=
  register.confirmed ++ register.pending

/-- How much of an asset has been issued. -/
def supply (register : Register) (original : Hash256) : ℕ :=
  ((register.issues.filter fun issue => issue.original = original).map
    fun issue => issue.quantity.toNat).sum

/-- What becomes of the register in an operation on the database. -/
def after (params : ChainParams) (assets : AssetDB) (register : Register) : Op → Register
  | .insertEntity issue entityType =>
    if (assets.insertEntity params issue entityType).2.toBool ∧ issue.updateMempool then
      register.accept ((assets.entityRow issue entityType).accepted issue.txid)
    else register
  | .insertAsset issue quantity name multiple =>
    if (assets.insertAsset params issue quantity name multiple).2 = none
        ∧ issue.updateMempool then
      register.accept ((assets.assetRow params issue quantity name multiple).accepted issue.txid)
    else register
  | .insertAssetFollowOn issue quantity originalTxid =>
    if (assets.insertAssetFollowOn params issue quantity originalTxid).2 = none
        ∧ issue.updateMempool then
      register.accept
        ((assets.followOnRow issue quantity EntityRow.zero).accepted originalTxid)
    else register
  | .commit => if (assets.commit params).2 = none then register.confirm else register.clear
  | .rollBack block => register.rollBack block
  | .clearMemPool => register.clear
  | .restart => register.clear

end Register

end Amberchain.Entity
