import Amberchain.Entity.Log

/-!
# Opening the entity database

`Initialize` reads the headers of the database and of the ledger.  It compares
the sizes that the two stand for first; only then it moves the ledger header back
when the ledger is ahead of the database.
-/

namespace Amberchain.Entity

namespace EntityLedger

/-- `GetSize`: behind the row that the ledger header points to. -/
def getSize (ledger : EntityLedger) : ℤ :=
  ledger.behind (ledger.header.getD ⟨-1, 0⟩).lastPos

/-- The repair loop of `Initialize`: from a position down to the newest row that
is not above the block.  Positions fall, so the position bounds the number of
rounds. -/
def newestUpTo (ledger : EntityLedger) (block : ℤ) : ℕ → ℤ → ℤ
  | 0, pos => pos
  | fuel + 1, pos =>
    if pos ≤ 0 then pos
    else if (ledger.getRow pos).block ≤ block then pos
    else newestUpTo ledger block fuel (ledger.getRow pos).prevPos

theorem newestUpTo_self {ledger : EntityLedger} {block pos : ℤ} {fuel : ℕ}
    (hold : pos ≤ 0 ∨ (ledger.getRow pos).block ≤ block) :
    ledger.newestUpTo block (fuel + 1) pos = pos := by
  unfold newestUpTo
  split
  · rfl
  rcases hold with hzero | hblock
  · contradiction
  rw [if_pos hblock]

end EntityLedger

namespace AssetDB

/-- The repair step of `Initialize`: a ledger header that is ahead takes the
block and the position of the database.  The position that is compared with the
database's comes from the search. -/
def repairHeader (assets : AssetDB) (dbHeader ledgerHeader : EntityHeader) :
    AssetDB × EntityHeader :=
  if dbHeader.block < ledgerHeader.block then
    ({ assets with
        ledger := { assets.ledger with header := some ⟨dbHeader.block, assets.prevPos⟩ } },
      ⟨dbHeader.block, assets.ledger.newestUpTo dbHeader.block (ledgerHeader.lastPos.toNat + 1)
          ledgerHeader.lastPos⟩)
  else (assets, ledgerHeader)

/-- The checks of `Initialize` on the two headers. -/
def checkHeaders (assets : AssetDB) (dbHeader ledgerHeader : EntityHeader) :
    AssetDB × Option McError :=
  if assets.pos ≠ assets.ledger.getSize then (assets, some .corrupted)
  else
    let (assets, ledgerHeader) := assets.repairHeader dbHeader ledgerHeader
    if dbHeader.block ≠ ledgerHeader.block ∨ dbHeader.lastPos ≠ ledgerHeader.lastPos then
      (assets, some .corrupted)
    else (assets, none)

/-- `Initialize` -/
def initializeFrom (db : EntityDB) (ledger : EntityLedger) : AssetDB × Option McError :=
  let fresh : EntityHeader := ⟨-1, 0⟩
  let dbHeader := db.header.getD fresh
  let assets : AssetDB :=
    { db := { db with header := some dbHeader }
      batch := []
      ledger := ledger
      memPool := []
      block := dbHeader.block
      prevPos := dbHeader.lastPos
      pos := dbHeader.lastPos + ledgerTotalSize }
  match ledger.header with
  | none =>
    checkHeaders { assets with ledger := { ledger with header := some fresh } } dbHeader fresh
  | some ledgerHeader =>
    if dbHeader.lastPos ≠ 0 ∧ (ledger.row dbHeader.lastPos).isNone then
      (assets, some .corrupted)
    else
      checkHeaders { assets with pos := ledger.behind dbHeader.lastPos } dbHeader ledgerHeader

variable {db : EntityDB} {ledger : EntityLedger} {header ahead : EntityHeader}

/-- Files with two readable headers are opened by the checks alone. -/
theorem initializeFrom_eq (hdb : db.header = some header) (hledger : ledger.header = some ahead)
    (hrow : header.lastPos = 0 ∨ (ledger.row header.lastPos).isSome) : initializeFrom db ledger =
      checkHeaders (initialized db ledger) header ahead := by
  have hreadable : ¬ (header.lastPos ≠ 0 ∧ (ledger.row header.lastPos).isNone) := by
    rintro ⟨hne, hnone⟩
    rcases hrow with hzero | hsome
    · exact hne hzero
    rw [Option.isNone_iff_eq_none.mp hnone] at hsome
    cases hsome
  have hkeep : ledger = { ledger with header := some (ledger.header.getD ⟨-1, 0⟩) } := by
    rw [hledger]
    exact congrArg (EntityLedger.mk · ledger.row) hledger
  unfold initializeFrom initialized
  simp only [hdb, hledger, Option.getD_some, if_neg hreadable]
  rw [hledger, Option.getD_some] at hkeep
  rw [← hkeep]

theorem initializeFrom_agree (hdb : db.header = some header) (hledger : ledger.header = some header)
    (hrow : header.lastPos = 0 ∨ (ledger.row header.lastPos).isSome) :
    initializeFrom db ledger = (initialized db ledger, none) := by
  have hsize : (initialized db ledger).pos = (initialized db ledger).ledger.getSize := by
    unfold initialized EntityLedger.getSize
    simp only [hdb, hledger, Option.getD_some]
    rfl
  rw [initializeFrom_eq hdb hledger hrow]
  unfold checkHeaders repairHeader
  rw [if_neg (not_not_intro hsize)]
  simp

section

variable (hdb : db.header = some header) (hledger : ledger.header = some ahead)
  (hrow : header.lastPos = 0 ∨ (ledger.row header.lastPos).isSome)

include hdb hledger hrow

theorem initializeFrom_sizes
    (hsize : ledger.behind header.lastPos ≠ ledger.behind ahead.lastPos) :
    (initializeFrom db ledger).2 = some .corrupted := by
  have hdiffer : (initialized db ledger).pos ≠ (initialized db ledger).ledger.getSize := by
    unfold initialized EntityLedger.getSize
    simp only [hdb, hledger, Option.getD_some]
    exact hsize
  rw [initializeFrom_eq hdb hledger hrow]
  unfold checkHeaders
  rw [if_pos hdiffer]

theorem initializeFrom_behind
    (hblock : ahead.block < header.block) : (initializeFrom db ledger).2 = some .corrupted := by
  rw [initializeFrom_eq hdb hledger hrow]
  unfold checkHeaders repairHeader
  split
  · rfl
  rw [if_neg (by omega)]
  simp only [if_pos (Or.inl (Int.ne_of_gt hblock))]

end

/-- A ledger that is ahead, but ends at the same row, gets its block moved
back. -/
theorem initializeFrom_ahead (hdb : db.header = some header)
    (hledger : ledger.header = some ⟨ahead.block, header.lastPos⟩)
    (hrow : header.lastPos = 0 ∨ (ledger.row header.lastPos).isSome)
    (hblock : header.block < ahead.block)
    (hlast : header.lastPos ≤ 0 ∨ (ledger.getRow header.lastPos).block ≤ header.block) :
    initializeFrom db ledger = (initialized db { ledger with header := some header }, none) := by
  have hsize : (initialized db ledger).pos = (initialized db ledger).ledger.getSize := by
    unfold initialized EntityLedger.getSize
    simp only [hdb, hledger, Option.getD_some]
    rfl
  rw [initializeFrom_eq hdb hledger hrow]
  unfold checkHeaders repairHeader
  rw [if_neg (not_not_intro hsize)]
  simp only [if_pos hblock]
  have hstay : (initialized db ledger).ledger.newestUpTo header.block
      (header.lastPos.toNat + 1) header.lastPos = header.lastPos :=
    EntityLedger.newestUpTo_self hlast
  rw [if_neg (by
    rintro (hne | hne)
    · exact hne rfl
    · exact hne hstay.symm)]
  unfold initialized
  simp only [hdb, Option.getD_some]
  rfl

end AssetDB

end Amberchain.Entity
