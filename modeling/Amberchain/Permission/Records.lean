import Amberchain.Base.RowChain
import Amberchain.Permission.Grant
import Mathlib.Data.Nat.Digits.Lemmas

/-!
# Committing and rolling back blocks

`Commit` moves the mempool to the ledger, followed by a block-miner row and a
block-index row, and rewrites the database rows of all keys it touched.
`RollBack` reads the ledger backwards and puts every key back to the row its
last row links to.
-/

namespace Amberchain.Permission

/-- A write that reaches the disk on its own: one ledger row, the ledger header
or one database batch. -/
inductive DiskWrite where
  | ledgerRow (rowID : ℕ) (row : LedgerRow)
  | ledgerHeader (header : Header)
  | dbCommit (batch : List DBWrite)

def hexDigit (digit : ℕ) : ℕ :=
  if digit < 10 then 48 + digit else 55 + digit

/-- `sprintf(…, "Block %08X row", block)` for a 32-bit block. -/
def blockRowText (block : ℕ) : List ℕ :=
  [66, 108, 111, 99, 107, 32]
    ++ (List.range 8).map (fun i => hexDigit (block / 16 ^ (7 - i) % 16))
    ++ [32, 114, 111, 119]

def blockRowAddress (block : ℕ) : Hash160 :=
  BitVec.ofNat 160 (Nat.ofDigits 256 (blockRowText block))

def blockIndexKey (block : ℕ) : PermKey :=
  ⟨nullEntity, blockRowAddress block, MC_PTP_BLOCK_INDEX⟩

def blockMinerKey (miner : Hash160) : PermKey :=
  ⟨nullEntity, miner, MC_PTP_BLOCK_MINER⟩

def isAdminMinerKey (key : PermKey) : Bool :=
  key.entity = nullEntity ∧ (key.type = MC_PTP_ADMIN ∨ key.type = MC_PTP_MINE)

namespace Store

variable (params : ChainParams) (store : Store)

def writeDisk : DiskWrite → Store
  | .ledgerRow rowID row => { store with ledger := store.ledger.setRow rowID row }
  | .ledgerHeader header => { store with ledger := store.ledger.setHeader header }
  | .dbCommit batch => { store with db := store.db.commit batch }

def writeAll (writes : List DiskWrite) : Store :=
  writes.foldl writeDisk store

/-- The inner loop of `CalculateBlockFlags`: the next mempool row of the key
that reached consensus, or the last one. -/
def followToConsensus (memPool : List LedgerRow) : ℕ → LedgerRow → LedgerRow
  | 0, row => row
  | fuel + 1, row =>
    match seekMemPool memPool row.key row.thisRow with
    | none => row
    | some next =>
      if next.consensus ≠ 0 then next else followToConsensus memPool fuel next

def isGovernanceChange (row : LedgerRow) : Bool :=
  let next := followToConsensus store.memPool store.memPool.length row
  let last := store.permissionRow row.key false
  let block := store.nextBlock
  if row.key.type &&& (MC_PTP_ADMIN ||| MC_PTP_MINE) = 0
      ∨ row.key.entity ≠ nullEntity ∨ row.consensus = 0 then false
  else if next.consensus ≠ 0 ∧ next.thisRow ≠ row.thisRow then false
  else if last.thisRow ≠ 0 then
    (row.blockFrom ≠ last.blockFrom ∧ (block < row.blockFrom ∨ block < last.blockFrom))
      ∨ (row.blockTo ≠ last.blockTo ∧ (block < row.blockTo ∨ block < last.blockTo))
  else row.blockFrom < row.blockTo ∧ block < row.blockTo

def calculateBlockFlags : BitVec 32 :=
  if store.memPool.any store.isGovernanceChange then MC_PFB_GOVERNANCE_CHANGE
  else 0

def blockRow (key : PermKey) (hash : Hash256) (prevRow thisRow : ℕ)
    (flags : BitVec 32) : LedgerRow :=
  { (LedgerRow.zero key).setCommitHash hash with
    prevRow := prevRow
    blockFrom := store.nextBlock
    blockTo := store.nextBlock
    blockReceived := store.nextBlock
    thisRow := thisRow
    offset := flags }

/-- The block flags: a change of the admins or miners, and whether the miner's
last row carried the flag of an earlier block. -/
def blockFlags (miner : Hash160) : BitVec 32 :=
  (store.permissionRow (blockMinerKey miner) true).blockFlags &&& MC_PFB_MINED_BEFORE
    ||| store.calculateBlockFlags

def minerRow (miner : Hash160) (hash : Hash256) : LedgerRow :=
  store.blockRow (blockMinerKey miner) hash
    (store.permissionRow (blockMinerKey miner) true).thisRow store.row
    (store.blockFlags miner)

def indexRow (miner : Hash160) (hash : Hash256) : LedgerRow :=
  store.blockRow (blockIndexKey store.nextBlock) hash (store.memPoolStart - 1)
    (store.row + 1) (store.blockFlags miner)

def rowWrites (row : LedgerRow) : List DBWrite :=
  if isAdminMinerKey row.key then
    [.row row.key (row.toDBRow row.thisRow), .listEntries {(row.key.address, row.key.type)}]
  else [.row row.key (row.toDBRow row.thisRow)]

def commitBatch : List DBWrite :=
  store.memPool.flatMap rowWrites ++ [.header ⟨store.block + 1, store.row⟩]

/-- The writes of `CommitInternal` up to the database commit, with the rows of
the block in the mempool: the rows, the ledger header, then the batch. -/
def commitWrites : List DiskWrite :=
  (store.memPool.zipIdx store.memPoolStart).map (fun entry => .ledgerRow entry.2 entry.1)
    ++ [.ledgerHeader ⟨store.block + 1, store.row⟩, .dbCommit store.commitBatch]

/-- The two block rows are written again once the counts are known. -/
def countWrites : List DiskWrite :=
  [store.row - 2, store.row - 1].map fun rowID =>
    .ledgerRow rowID
      ((store.ledger.getRow rowID).setCounts store.adminCount store.minerCount)

end Store

end Amberchain.Permission

/-!
# Records of verified blocks

For every block whose miner was checked the database keeps the miner with the
counts after the block, and the offsets of the transactions that granted admin
or mine permission, six to a record.
-/

namespace Amberchain.Permission

def noOffsets : GrantOffsets :=
  Vector.replicate MC_PLS_SIZE_OFFSETS_PER_ROW 0

/-- The variables of the packing loop of `StoreBlockInfoInternal`. -/
structure GrantPack where
  items : ℕ
  lastOffset : BitVec 32
  recordID : ℕ
  offsets : GrantOffsets
  batch : List DBWrite

namespace GrantPack

def start : GrantPack where
  items := 0
  lastOffset := 0
  recordID := 0
  offsets := noOffsets
  batch := []

variable (hash : Hash256)

/-- Writes out a full record before the next offset is stored. -/
def flush (pack : GrantPack) : GrantPack :=
  if 0 < pack.items ∧ pack.items % MC_PLS_SIZE_OFFSETS_PER_ROW = 0 then
    { pack with
      batch := pack.batch ++ [.grants hash pack.recordID pack.offsets]
      offsets := noOffsets }
  else pack

def store (pack : GrantPack) (offset : BitVec 32) : GrantPack :=
  { pack with
    recordID := pack.items / MC_PLS_SIZE_OFFSETS_PER_ROW + 1
    offsets := pack.offsets.set (pack.items % MC_PLS_SIZE_OFFSETS_PER_ROW) offset
      (Nat.mod_lt _ (by decide))
    lastOffset := offset
    items := pack.items + 1 }

/-- One round of the loop for a grant row of the block: an offset equal to the
last one is not stored again. -/
def add (pack : GrantPack) (row : LedgerRow) : GrantPack :=
  let pack :=
    { pack with
      batch := pack.batch ++ [.listEntries {(row.key.address, row.key.type)}] }
  if row.offset ≠ pack.lastOffset then (pack.flush hash).store row.offset
  else pack

def finish (pack : GrantPack) : List DBWrite :=
  if 0 < pack.items then pack.batch ++ [.grants hash pack.recordID pack.offsets]
  else pack.batch

end GrantPack

namespace Store

variable (params : ChainParams) (store : Store)

/-- The mempool rows that `StoreBlockInfoInternal` records: the admin and mine
grants received in the block being built. -/
def blockGrants : List LedgerRow :=
  store.memPool.filter fun row =>
    isAdminMinerKey row.key ∧ row.blockReceived = store.nextBlock

def grantBatch (hash : Hash256) : List DBWrite :=
  (store.blockGrants.foldl (GrantPack.add hash) GrantPack.start).finish hash

/-- Both counts in one word, or zero when one does not fit. -/
def adminMinerCount : BitVec 32 :=
  if store.adminCount.toInt ≤ 0xffff ∧ store.minerCount.toInt ≤ 0xffff then
    store.adminCount <<< 16 + store.minerCount
  else 0

def keepsRecords : Bool :=
  params.cachedInputScript && params.supportMinerPrecheck && !params.anyoneCanMine

/-- The second half of `StoreBlockInfoInternal`. -/
def recordBlockMiner (miner : Hash160) (hash : Hash256) : Store :=
  store.writeDisk (.dbCommit [.blockMiner hash ⟨miner, store.adminMinerCount⟩])

/-- The counts after the block, when `update_counts` is set. -/
def countAfterBlock : Store :=
  let counted := (store.setBlock (store.block + 1)).updateCounts
  { counted.setBlock store.block with
    clearedMinerCountForMinerVerification := counted.minerCount }

def storeBlockInfoInternal (miner : Hash160) (hash : Hash256) (updateCounts : Bool) : Store :=
  if keepsRecords params then
    let stored := store.writeDisk (.dbCommit (store.grantBatch hash))
    let counted := if updateCounts then stored.countAfterBlock else stored
    counted.recordBlockMiner miner hash
  else store

def storeBlockInfo (miner : Hash160) (hash : Hash256) : Store :=
  let stored := store.storeBlockInfoInternal params miner hash true
  stored.setBlock (stored.block + 1)

/-- `IncrementBlock`: the counts of a verified block come from its record, or
are counted again when the record has none. -/
def incrementBlock (adminMinerCount : BitVec 32) : Store :=
  let next := store.setBlock (store.block + 1)
  let counted :=
    if adminMinerCount ≠ 0 then
      { next with
        adminCount := adminMinerCount >>> 16 &&& 0xffff
        minerCount := adminMinerCount &&& 0xffff }
    else next.updateCounts
  if 0 < counted.copiedRow then
    { counted with clearedMinerCountForMinerVerification := counted.minerCount }
  else counted

/-- `GetBlockMiner` by block hash. -/
def getBlockMiner (hash : Hash256) : Except McError BlockMinerRow :=
  match store.db.blockMiners.lookup hash with
  | none => .error .notFound
  | some row => .ok row

def getBlockAdminMinerGrants (hash : Hash256) (recordID : ℕ) : Except McError GrantOffsets :=
  match store.db.grants.lookup (hash, recordID) with
  | none => .error .notFound
  | some offsets => .ok offsets

end Store

end Amberchain.Permission

/-!
# Block rows have addresses of their own

The index row of a block is found by an address that spells the height, so
different heights must spell different addresses.
-/

namespace Amberchain.Permission

variable {left right : ℕ}

theorem hexDigit_inj (hleft : left < 16) (hright : right < 16)
    (heq : hexDigit left = hexDigit right) : left = right := by
  unfold hexDigit at heq
  split at heq <;> split at heq <;> omega

theorem hexDigit_lt {digit : ℕ} (hdigit : digit < 16) : hexDigit digit < 256 := by
  unfold hexDigit
  split <;> omega

@[simp]
theorem length_blockRowText (block : ℕ) : (blockRowText block).length = 18 := by
  simp [blockRowText]

theorem blockRowText_lt (block : ℕ) : ∀ byte ∈ blockRowText block, byte < 256 := by
  intro byte hbyte
  simp only [blockRowText, List.mem_append, List.mem_map] at hbyte
  rcases hbyte with (hstart | ⟨i, _, rfl⟩) | hend
  · revert byte
    decide
  · exact hexDigit_lt (Nat.mod_lt _ (by decide))
  revert byte
  decide

theorem blockRowText_inj (hleft : left < 2 ^ 32)
    (hright : right < 2 ^ 32) (heq : blockRowText left = blockRowText right) : left = right := by
  have hdigits : (List.range 8).map (fun i => hexDigit (left / 16 ^ (7 - i) % 16)) =
      (List.range 8).map (fun i => hexDigit (right / 16 ^ (7 - i) % 16)) := by
    exact List.append_cancel_left (List.append_cancel_right heq)
  have hdigit : ∀ i < 8, left / 16 ^ (7 - i) % 16 = right / 16 ^ (7 - i) % 16 := by
    intro i hi
    exact hexDigit_inj (Nat.mod_lt _ (by decide)) (Nat.mod_lt _ (by decide))
      (List.map_inj_left.mp hdigits i (List.mem_range.mpr hi))
  have h0 := hdigit 0 (by decide)
  have h1 := hdigit 1 (by decide)
  have h2 := hdigit 2 (by decide)
  have h3 := hdigit 3 (by decide)
  have h4 := hdigit 4 (by decide)
  have h5 := hdigit 5 (by decide)
  have h6 := hdigit 6 (by decide)
  have h7 := hdigit 7 (by decide)
  omega

theorem blockRowAddress_inj (hleft : left < 2 ^ 32) (hright : right < 2 ^ 32)
    (heq : blockRowAddress left = blockRowAddress right) : left = right := by
  have hbound : ∀ block, Nat.ofDigits 256 (blockRowText block) < 2 ^ 160 := by
    intro block
    have hlt := Nat.ofDigits_lt_base_pow_length (b := 256) (by decide) (blockRowText_lt block)
    exact hlt.trans (by norm_num)
  have hnat := congrArg BitVec.toNat heq
  simp only [blockRowAddress, BitVec.toNat_ofNat, Nat.mod_eq_of_lt (hbound _)] at hnat
  exact blockRowText_inj hleft hright
    (Nat.ofDigits_inj_of_len_eq (by decide) (by simp) (blockRowText_lt left)
      (blockRowText_lt right) hnat)

theorem blockIndexKey_inj (hleft : left < 2 ^ 32)
    (hright : right < 2 ^ 32) (heq : blockIndexKey left = blockIndexKey right) : left = right := by
  simp only [blockIndexKey, PermKey.mk.injEq, true_and, and_true] at heq
  exact blockRowAddress_inj hleft hright heq

end Amberchain.Permission
