import Amberchain.Permission.CommittedChain
import Amberchain.Permission.Consensus

/-!
# Stores with the same blocks

Two stores that have connected the same blocks agree on every row of their logs but the
counts and flags of the block rows, whatever was connected and rolled back before.  The
next block makes the same rows in both.
-/

namespace Amberchain.Permission

open RowChain

namespace Store

structure AlikeRow (row other : LedgerRow) : Prop where
  key : other.key = row.key
  received : other.blockReceived = row.blockReceived
  grant : isGrantType row.key.type = true → other = row

structure AlikeBlocks (store other : Store) : Prop where
  live : Live store
  live' : Live other
  block : other.block = store.block
  start : other.memPoolStart = store.memPoolStart
  rows : ∀ i, 0 < i → i < store.memPoolStart →
    AlikeRow (store.ledger.getRow i) (other.ledger.getRow i)

/-- The stores have the same mempool rows as well. -/
structure AlikeLogs (store other : Store) : Prop extends AlikeBlocks store other where
  memPool : other.memPool = store.memPool

structure Alike (store other : Store) : Prop extends AlikeLogs store other where
  adminCount : other.adminCount = store.adminCount

variable {params : ChainParams} {store other : Store}

theorem AlikeRow.refl (row : LedgerRow) : AlikeRow row row :=
  ⟨rfl, rfl, fun _ => rfl⟩

theorem AlikeRow.trans {row next last : LedgerRow} (hfirst : AlikeRow row next)
    (hsecond : AlikeRow next last) : AlikeRow row last where
  key := hsecond.key.trans hfirst.key
  received := hsecond.received.trans hfirst.received
  grant := fun hgrant =>
    (hsecond.grant (by rw [hfirst.key]; exact hgrant)).trans (hfirst.grant hgrant)

theorem AlikeRow.symm {row next : LedgerRow} (halike : AlikeRow row next) :
    AlikeRow next row where
  key := halike.key.symm
  received := halike.received.symm
  grant := fun hgrant => (halike.grant (by rw [← halike.key]; exact hgrant)).symm

/-- Counts of block-miner rows do not matter. -/
theorem alikeRow_of_recounted {row row' : ℕ → LedgerRow} {base i : ℕ}
    (hre : Recounted row row' base) (hpos : 0 < i) (hlt : i < base) :
    AlikeRow (row i) (row' i) where
  key := hre.key hpos hlt
  received := hre.blockReceived hpos hlt
  grant := fun hgrant => hre.eq_of_ne hpos hlt fun address hkey => by
    rw [hkey] at hgrant
    exact absurd hgrant (by
      show ¬isGrantType MC_PTP_BLOCK_MINER = true
      decide)

namespace AlikeBlocks

theorem refl (hlive : Live store) : AlikeBlocks store store :=
  ⟨hlive, hlive, rfl, rfl, fun _ _ _ => AlikeRow.refl _⟩

theorem symm (halike : AlikeBlocks store other) : AlikeBlocks other store where
  live := halike.live'
  live' := halike.live
  block := halike.block.symm
  start := halike.start.symm
  rows := fun i hpos hlt => (halike.rows i hpos (by rwa [← halike.start])).symm

theorem trans {third : Store} (hfirst : AlikeBlocks store other)
    (hsecond : AlikeBlocks other third) : AlikeBlocks store third where
  live := hfirst.live
  live' := hsecond.live'
  block := hsecond.block.trans hfirst.block
  start := hsecond.start.trans hfirst.start
  rows := fun i hpos hlt => (hfirst.rows i hpos hlt).trans
    (hsecond.rows i hpos (by rwa [hfirst.start]))

theorem of_sameBlocks (hlive : Live store) (hother : Live other)
    (hsame : SameBlocks store other) : AlikeBlocks store other where
  live := hlive
  live' := hother
  block := hsame.block
  start := hsame.start
  rows := fun _ hpos hlt => alikeRow_of_recounted hsame.recounted hpos hlt

theorem nextBlock (halike : AlikeBlocks store other) : other.nextBlock = store.nextBlock := by
  rw [Store.nextBlock, Store.nextBlock, halike.block]

end AlikeBlocks

namespace AlikeLogs

variable (halike : AlikeLogs store other)

include halike

theorem row : other.row = store.row := by
  have hend := halike.live.pool.start_add_length
  have hend' := halike.live'.pool.start_add_length
  rw [halike.start, halike.memPool] at hend'
  exact hend'.symm.trans hend

theorem logRow {i : ℕ} (hpos : 0 < i) : AlikeRow (store.logRow i) (other.logRow i) := by
  by_cases hlt : i < store.memPoolStart
  · rw [logRow_of_lt hlt, logRow_of_lt (by rwa [halike.start])]
    exact halike.rows i hpos hlt
  rw [logRow_of_ge (not_lt.mp hlt), logRow_of_ge (by rw [halike.start]; exact not_lt.mp hlt),
    halike.start, halike.memPool]
  exact AlikeRow.refl _

theorem newestRow (key : PermKey) (base : ℕ) :
    newestRow other.logRow key base = newestRow store.logRow key base :=
  newestRow_congr key fun _ hpos _ => (halike.logRow hpos).key

theorem newest {key : PermKey} (hgrant : isGrantType key.type = true) (base : ℕ) :
    newest other.logRow key base = newest store.logRow key base := by
  rw [Permission.newest, Permission.newest, halike.newestRow]
  by_cases hnone : Permission.newestRow store.logRow key base = 0
  · rw [if_pos hnone, if_pos hnone]
  rw [if_neg hnone, if_neg hnone]
  have hkey : (store.logRow (Permission.newestRow store.logRow key base)).key = key :=
    key_lastRow hnone
  exact (halike.logRow (Nat.pos_of_ne_zero hnone)).grant (by rw [hkey]; exact hgrant)

/-- A lookup finds the same row number and range. -/
theorem permissionRow {key : PermKey} (hgrant : isGrantType key.type = true) :
    (other.permissionRow key true).thisRow = (store.permissionRow key true).thisRow ∧
      (other.permissionRow key true).blockFrom = (store.permissionRow key true).blockFrom ∧
      (other.permissionRow key true).blockTo = (store.permissionRow key true).blockTo := by
  have htype : key.type ≠ MC_PTP_BLOCK_INDEX := by
    intro hindex
    rw [hindex] at hgrant
    exact absurd hgrant (by decide)
  have hfound := halike.live.pool.rowAt htype (halike.live.showsBelow htype)
  have hfound' := halike.live'.pool.rowAt htype (halike.live'.showsBelow htype)
  rw [halike.row] at hfound'
  refine ⟨?_, ?_, ?_⟩
  · rw [hfound.thisRow, hfound'.thisRow, halike.newestRow]
  · rw [hfound.blockFrom, hfound'.blockFrom, halike.newest hgrant]
  rw [hfound.blockTo, hfound'.blockTo, halike.newest hgrant]

theorem permission {key : PermKey} (hgrant : isGrantType key.type = true) :
    other.permission key = store.permission key := by
  obtain ⟨-, hfrom, hto⟩ := halike.permissionRow hgrant
  have hrange : inRange (other.permissionRow key true) other.nextBlock =
      inRange (store.permissionRow key true) store.nextBlock := by
    unfold inRange
    rw [hfrom, hto, halike.nextBlock]
  unfold Store.permission getPermission
  dsimp only
  rw [hrange]

theorem isApproved (upgrade : BitVec 128) : other.isApproved upgrade = store.isApproved upgrade := by
  have hgrant : isGrantType MC_PTP_UPGRADE = true := by decide
  obtain ⟨-, hfrom, hto⟩ := halike.permissionRow
    (show isGrantType (PermKey.mk upgradeEntity (upgradeAddress upgrade) MC_PTP_UPGRADE).type =
      true from hgrant)
  unfold Store.isApproved
  simp only [hfrom, hto]

theorem previousRow {newRow row : LedgerRow} (hgrant : isGrantType newRow.key.type = true)
    (hpos : 0 < row.prevRow) (hkey : (store.logRow row.prevRow).key = newRow.key) :
    other.previousRow newRow row = store.previousRow newRow row := by
  have hrow := halike.logRow hpos
  rw [halike.live.previousRow_eq hpos hkey, halike.live'.previousRow_eq hpos (hrow.key.trans hkey),
    hrow.grant (by rw [hkey]; exact hgrant)]

/-- The loop sees the same rows, and of the last row the same range. -/
theorem verifyConsensusLoop {newRow lastRow lastRow' : LedgerRow}
    (hgrant : isGrantType newRow.key.type = true)
    (hfrom : lastRow'.blockFrom = lastRow.blockFrom) (hto : lastRow'.blockTo = lastRow.blockTo) :
    ∀ (fuel base : ℕ) (row : LedgerRow) (tmpPool : List LedgerRow) (required : ℤ),
      row.prevRow = Permission.newestRow store.logRow newRow.key base → base ≤ store.row →
        other.verifyConsensusLoop newRow lastRow' fuel row tmpPool required =
          store.verifyConsensusLoop newRow lastRow fuel row tmpPool required := by
  have htype : newRow.key.type ≠ MC_PTP_BLOCK_INDEX := by
    intro hindex
    rw [hindex] at hgrant
    exact absurd hgrant (by decide)
  intro fuel
  induction fuel with
  | zero => exact fun _ _ _ _ _ _ => rfl
  | succ fuel ih =>
    intro base row tmpPool required hprev hbase
    unfold Store.verifyConsensusLoop
    dsimp only
    rw [hfrom, hto]
    split
    · rfl
    split
    · rfl
    rename_i hfirst
    have hpos := Nat.pos_of_ne_zero hfirst
    have hnone : Permission.newestRow store.logRow newRow.key base ≠ 0 := by rwa [← hprev]
    have hkey : (store.logRow row.prevRow).key = newRow.key := by
      rw [hprev]
      exact key_lastRow hnone
    have hlt : row.prevRow < base := by
      rw [hprev]
      exact lastRow_lt hnone
    rw [halike.previousRow hgrant hpos hkey, halike.live.previousRow_eq hpos hkey]
    dsimp only
    split
    · rfl
    exact ih row.prevRow _ _ _
      (halike.live.pool.linked newRow.key htype row.prevRow hpos (by omega) hkey) (by omega)

end AlikeLogs

namespace Alike

variable (halike : Alike store other)

include halike

theorem adminConsensus (entity : Hash256) (type : PermType) :
    other.adminConsensus params entity type = store.adminConsensus params entity type := by
  unfold Store.adminConsensus getAdminCount isSetupPeriod
  rw [halike.adminCount, halike.block]

theorem canAdmin (entity : Hash256) (address : Hash160) :
    other.canAdmin params entity address = store.canAdmin params entity address := by
  have hgrant : isGrantType MC_PTP_ADMIN = true := by decide
  have hpermission := halike.permission
    (show isGrantType (PermKey.mk entity address MC_PTP_ADMIN).type = true from hgrant)
  unfold Store.canAdmin
  rw [halike.block, halike.adminCount, hpermission]

theorem mayGrant (entity : Hash256) (type : PermType) (admin : Hash160) :
    other.mayGrant params entity type admin = store.mayGrant params entity type admin := by
  have hgrant : isGrantType MC_PTP_ACTIVATE = true := by decide
  have hpermission := halike.permission
    (show isGrantType (PermKey.mk entity admin MC_PTP_ACTIVATE).type = true from hgrant)
  unfold Store.mayGrant canActivate
  rw [halike.canAdmin, hpermission]

/-- A grant makes the same row, and consensus is the same. -/
theorem verifyConsensus (params : ChainParams) (grant : Grant) {type : PermType} (hgrant : isGrantType type = true) :
    let key : PermKey := ⟨grant.entity, grant.address, type⟩
    other.verifyConsensus params
        (other.grantRow grant type (other.getPermission key true).2)
        (other.getPermission key true).2 =
      store.verifyConsensus params
        (store.grantRow grant type (store.getPermission key true).2)
        (store.getPermission key true).2 := by
  intro key
  obtain ⟨hthis, hfrom, hto⟩ := halike.permissionRow (show isGrantType key.type = true from hgrant)
  have hrow : other.grantRow grant type (other.getPermission key true).2 =
      store.grantRow grant type (store.getPermission key true).2 := by
    unfold Store.grantRow getPermission
    rw [hthis, halike.adminCount, halike.nextBlock, halike.row]
  have htype : key.type ≠ MC_PTP_BLOCK_INDEX := by
    intro hindex
    have hnone : isGrantType MC_PTP_BLOCK_INDEX = true := hindex ▸ hgrant
    exact absurd hnone (by decide)
  rw [hrow]
  unfold Store.verifyConsensus
  dsimp only
  rw [halike.adminConsensus, halike.row]
  split
  · rfl
  refine halike.verifyConsensusLoop hgrant hfrom hto _ store.row _ _ _ ?_ (Nat.le_refl _)
  exact (halike.live.pool.rowAt htype (halike.live.showsBelow htype)).thisRow

end Alike

namespace AlikeLogs

variable (halike : AlikeLogs store other)

include halike

/-- The same row follows both mempools. -/
theorem appended {row : LedgerRow} {next : Store} (happended : store.Appended row next) :
    other.Appended row (other.saveClearedCounts.addMemPool row) where
  nextRow := {
    prevRow := by
      rw [(halike.permissionRow happended.nextRow.grantType).1]
      exact happended.nextRow.prevRow
    blockReceived := happended.nextRow.blockReceived.trans halike.nextBlock.symm
    thisRow := happended.nextRow.thisRow.trans halike.row.symm
    grantType := happended.nextRow.grantType }
  memPool := by
    show other.saveClearedCounts.memPool ++ [row] = _
    rw [saveClearedCounts_memPool]
  frame := ⟨_, _, rfl⟩

/-- One more row in both mempools. -/
theorem append {row : LedgerRow} {next next' : Store} (happended : store.Appended row next)
    (happended' : other.Appended row next') : AlikeLogs next next' where
  live := halike.live.append happended
  live' := halike.live'.append happended'
  block := by rw [happended'.block_eq, happended.block_eq, halike.block]
  start := by
    rw [halike.live'.append_memPoolStart happended', halike.live.append_memPoolStart happended,
      halike.start]
  rows := by
    rw [halike.live.append_memPoolStart happended, happended.ledger_eq, happended'.ledger_eq]
    exact halike.rows
  memPool := by rw [happended'.memPool, happended.memPool, halike.memPool]

end AlikeLogs

theorem saveClearedCounts_adminCount (store : Store) :
    store.saveClearedCounts.adminCount = store.adminCount := by
  unfold saveClearedCounts
  split <;> rfl

theorem adjustCounts_adminCount (store : Store) (key : PermKey) (lastAllowed : PermType) :
    (store.adjustCounts key lastAllowed).adminCount =
      if key.entity = nullEntity ∧ key.type = MC_PTP_ADMIN then
        store.adminCount + countDelta lastAllowed (store.permission key)
      else store.adminCount := by
  unfold adjustCounts
  split
  · rfl
  split <;> rfl

namespace Alike

variable (halike : Alike store other)

include halike

/-- The same row is counted in both. -/
theorem adds {row : LedgerRow} {next : Store} (hadds : store.Adds row next) :
    Alike next ((other.saveClearedCounts.addMemPool row).adjustCounts row.key
      (other.getPermission row.key true).1) := by
  have hgrant := hadds.appended.nextRow.grantType
  have hother := halike.toAlikeLogs.appended hadds.appended
  have hlast : (other.getPermission row.key true).1 = (store.getPermission row.key true).1 :=
    halike.permission hgrant
  obtain ⟨admins, miners, hframe⟩ := (other.saveClearedCounts.addMemPool row).adjustCounts_frame
    row.key (other.getPermission row.key true).1
  have hadded : AlikeLogs (store.saveClearedCounts.addMemPool row)
      (other.saveClearedCounts.addMemPool row) :=
    halike.toAlikeLogs.append ⟨hadds.appended.nextRow, by
      show store.saveClearedCounts.memPool ++ [row] = _
      rw [saveClearedCounts_memPool], ⟨_, _, rfl⟩⟩ hother
  have hcounted : other.Appended row ((other.saveClearedCounts.addMemPool row).adjustCounts
      row.key (other.getPermission row.key true).1) := by
    refine ⟨hother.nextRow, ?_, ⟨admins, miners, hframe⟩⟩
    rw [hframe]
    exact hother.memPool
  refine ⟨halike.toAlikeLogs.append hadds.appended hcounted, ?_⟩
  rw [hadds.counted, adjustCounts_adminCount, adjustCounts_adminCount, hadded.permission hgrant,
    hlast]
  show (if _ then other.saveClearedCounts.adminCount + _ else
    other.saveClearedCounts.adminCount) = if _ then store.saveClearedCounts.adminCount + _ else
    store.saveClearedCounts.adminCount
  rw [saveClearedCounts_adminCount, saveClearedCounts_adminCount, halike.adminCount]

/-- Setting one type adds the same row to both. -/
theorem setType (grant : Grant) {type : PermType} (hgrant : isGrantType type = true) :
    Alike (store.setType params grant type).1 (other.setType params grant type).1 ∧
      (other.setType params grant type).2 = (store.setType params grant type).2 := by
  have hverified := halike.verifyConsensus params grant hgrant
  unfold Store.setType
  dsimp only
  rw [hverified]
  split
  · exact ⟨halike, rfl⟩
  rename_i row hok
  split
  · obtain ⟨hkey, hadds⟩ := store.adds_of_verified params grant hgrant hok
    have hnext := halike.adds hadds
    rw [hkey] at hnext
    exact ⟨hnext, rfl⟩
  exact ⟨halike, rfl⟩

end Alike

theorem simulates_alike (params : ChainParams) : Simulates params Alike where
  setType := fun halike grant _ hmem =>
    halike.setType grant (isGrantType_of_mem params hmem)
  mayGrant := fun halike entity type admin => halike.mayGrant entity type admin
  rooted := fun halike => halike.permission (by decide)
  isApproved := fun halike upgrade => halike.isApproved upgrade

theorem countAt_alike {row row' : ℕ → LedgerRow} {base : ℕ}
    (hrows : ∀ i, 0 < i → i < base → AlikeRow (row i) (row' i)) {type : PermType}
    (hgrant : isGrantType type = true) (next : ℕ) :
    countAt row' type base next = countAt row type base next := by
  have hallowed : ∀ address, allowedAt row' type base next address ↔
      allowedAt row type base next address := by
    intro address
    unfold allowedAt
    rw [newestRow_congr ⟨nullEntity, address, type⟩ fun i hpos hlt => (hrows i hpos hlt).key]
    refine and_congr_right fun hnone => ?_
    have hkey : (row (newestRow row ⟨nullEntity, address, type⟩ base)).key =
        ⟨nullEntity, address, type⟩ := key_lastRow hnone
    rw [(hrows _ (Nat.pos_of_ne_zero hnone) (lastRow_lt hnone)).grant (by rw [hkey]; exact hgrant)]
  unfold countAt
  simp only [hallowed]

/-- With empty mempools the blocks are all there is. -/
theorem AlikeBlocks.alike (halike : AlikeBlocks store other) (hempty : store.memPool = [])
    (hempty' : other.memPool = []) : Alike store other where
  toAlikeBlocks := halike
  memPool := hempty'.trans hempty.symm
  adminCount := by
    rw [(halike.live.counts hempty).1, (halike.live'.counts hempty').1,
      halike.live.clearedAdmins, halike.live'.clearedAdmins, halike.start, halike.nextBlock]
    exact countAt_alike halike.rows (by decide) store.nextBlock

theorem Live.commit_key (params : ChainParams) (hlive : Live store) (miner : Hash160)
    (hash : Hash256) {i : ℕ} (hlt : i < store.row + 2) :
    ((store.commit params miner hash).ledger.getRow i).key =
      ((store.addBlockRows miner hash).logRow i).key := by
  obtain ⟨blockMiners, hcommit⟩ := store.commit_eq params miner hash
  have hrow : (store.commit params miner hash).ledger.getRow i =
      stampedRow (store.addBlockRows miner hash) i := by
    rw [hcommit]
    exact ((hlive.blockStamped miner hash).getRow i).trans (if_pos hlt)
  rw [hrow, stampedRow_key]

theorem Live.commit_blockRow (params : ChainParams) (hlive : Live store) (miner : Hash160)
    (hash : Hash256) {i : ℕ} (hge : store.row ≤ i) (hlt : i < store.row + 2) :
    ((store.commit params miner hash).ledger.getRow i).key =
      if i = store.row then blockMinerKey miner else blockIndexKey store.nextBlock := by
  rw [hlive.commit_key params miner hash hlt]
  have hfilled := hlive.filled miner hash
  obtain rfl | rfl : i = store.row ∨ i = store.row + 1 := by omega
  · rw [if_pos rfl, hfilled.minerRow]
    rfl
  rw [if_neg (by omega), hfilled.indexRow]
  rfl

/-- The same block on alike logs. -/
theorem AlikeLogs.commit (params : ChainParams) (halike : AlikeLogs store other)
    (hbound : store.block + 1 < 2 ^ 31) (miner : Hash160) (hash : Hash256) :
    AlikeBlocks (store.commit params miner hash) (other.commit params miner hash) := by
  have hrest := halike.live.commit_atRest params miner hash hbound
  have hrest' := halike.live'.commit_atRest params miner hash (by rwa [halike.block])
  obtain ⟨hblock, hrow⟩ := halike.live.commit_block params miner hash
  obtain ⟨hblock', hrow'⟩ := halike.live'.commit_block params miner hash
  refine ⟨hrest.live, hrest'.live, ?_, ?_, fun i hpos hlt => ?_⟩
  · rw [hblock, hblock', halike.block]
  · rw [memPoolStart_of_empty hrest.memPool, memPoolStart_of_empty hrest'.memPool, hrow, hrow',
      halike.row]
  rw [memPoolStart_of_empty hrest.memPool, hrow] at hlt
  by_cases hold : i < store.row
  · have hold' : i < other.row := by rwa [halike.row]
    rw [halike.live.commit_getRow params miner hash (.inl hold), if_pos hold,
      halike.live'.commit_getRow params miner hash (.inl hold'), if_pos hold']
    exact halike.logRow hpos
  have hge := not_lt.mp hold
  have hkey := halike.live.commit_blockRow params miner hash hge hlt
  have hge' : other.row ≤ i := by rwa [halike.row]
  have hlt' : i < other.row + 2 := by rwa [halike.row]
  have hkey' := halike.live'.commit_blockRow params miner hash hge' hlt'
  have hstart := halike.start
  have hend' := halike.live'.pool.start_add_length
  refine ⟨?_, ?_, fun hgrant => ?_⟩
  · rw [hkey, hkey', halike.row, halike.nextBlock]
  · rw [halike.live.commit_received params miner hash (by omega) hlt,
      halike.live'.commit_received params miner hash (by omega) hlt', halike.nextBlock]
  rw [hkey] at hgrant
  split at hgrant
  · exact absurd hgrant (by
      show ¬isGrantType MC_PTP_BLOCK_MINER = true
      decide)
  exact absurd hgrant (by
    show ¬isGrantType MC_PTP_BLOCK_INDEX = true
    decide)

/-- The other store holds the blocks of the first one, perhaps with more behind them. -/
structure Continues (store other : Store) : Prop where
  live : Live store
  live' : Live other
  block_le : store.block ≤ other.block
  start_le : store.memPoolStart ≤ other.memPoolStart
  rows : ∀ i, 0 < i → i < store.memPoolStart →
    AlikeRow (store.ledger.getRow i) (other.ledger.getRow i)
  beyond : ∀ i, store.memPoolStart ≤ i → i < other.memPoolStart →
    store.block < ((other.ledger.getRow i).blockReceived : ℤ)

theorem AlikeBlocks.continues (halike : AlikeBlocks store other) : Continues store other where
  live := halike.live
  live' := halike.live'
  block_le := halike.block.ge
  start_le := halike.start.ge
  rows := halike.rows
  beyond := fun _ hge hlt => absurd (halike.start ▸ hlt) (not_lt.mpr hge)

theorem Continues.trans {third : Store} (hcontinues : Continues store other)
    (halike : AlikeBlocks other third) : Continues store third where
  live := hcontinues.live
  live' := halike.live'
  block_le := halike.block ▸ hcontinues.block_le
  start_le := halike.start ▸ hcontinues.start_le
  rows := fun i hpos hlt => (hcontinues.rows i hpos hlt).trans
    (halike.rows i hpos (lt_of_lt_of_le hlt hcontinues.start_le))
  beyond := fun i hge hlt => by
    have hpos := lt_of_lt_of_le hcontinues.live.pool.start_pos hge
    rw [halike.start] at hlt
    rw [(halike.rows i hpos hlt).received]
    exact hcontinues.beyond i hge hlt

theorem Live.continues_addBlock (params : ChainParams) (hlive : Live store)
    (hbound : store.block + 1 < 2 ^ 31) (block : Block) :
    Continues store (store.addBlock params block) := by
  obtain ⟨hcalls, hledger, hblock, hstart⟩ := hlive.callAll params block.calls
  unfold Store.addBlock
  generalize store.callAll params block.calls = filled at hcalls hledger hblock hstart ⊢
  have hend := hcalls.pool.start_add_length
  have hrest := hcalls.commit_atRest params block.miner block.hash (by rwa [hblock])
  obtain ⟨hnewBlock, hnewRow⟩ := hcalls.commit_block params block.miner block.hash
  have hnewStart := (memPoolStart_of_empty hrest.memPool).trans hnewRow
  refine ⟨hlive, hrest.live, ?_, ?_, fun i hpos hlt => ?_, fun i hold hlt => ?_⟩
  · omega
  · omega
  · rw [hcalls.commit_getRow params block.miner block.hash (.inl (by omega)),
      if_pos (by omega), logRow_of_lt (by omega), hledger]
    exact AlikeRow.refl _
  rw [hnewStart] at hlt
  rw [hcalls.commit_received params block.miner block.hash (by omega) hlt, nextBlock]
  omega

theorem Continues.rollBack (hcontinues : Continues store other) :
    AlikeBlocks store (other.rollBack store.block) := by
  have hfiles := hcontinues.live.files
  obtain ⟨cut, hrolled⟩ := hcontinues.live'.rollBack_spec hfiles.block_ge hcontinues.block_le
  have hcut : Cut other.ledger.getRow other.memPoolStart store.block store.memPoolStart := by
    refine ⟨hfiles.log.pos, hcontinues.start_le, fun i hpos hlt => ?_, hcontinues.beyond⟩
    rw [(hcontinues.rows i hpos hlt).received]
    exact hfiles.log.received_le i hpos hlt
  refine ⟨hcontinues.live, hrolled.atRest.live, hrolled.block, ?_, fun i hpos hlt => ?_⟩
  · rw [memPoolStart_of_empty hrolled.atRest.memPool, hrolled.row]
    exact hrolled.isCut.unique hcut
  rw [hrolled.getRow]
  exact hcontinues.rows i hpos hlt

theorem AlikeBlocks.addBlock (params : ChainParams) (halike : AlikeBlocks store other)
    (hempty : store.memPool = []) (hempty' : other.memPool = [])
    (hbound : store.block + 1 < 2 ^ 31) (block : Block) :
    AlikeBlocks (store.addBlock params block) (other.addBlock params block) := by
  have hcalls := (simulates_alike params).callAll block.calls (halike.alike hempty hempty')
  obtain ⟨_, _, hblock, _⟩ := halike.live.callAll params block.calls
  exact hcalls.toAlikeLogs.commit params (by rwa [hblock]) block.miner block.hash

end Store

end Amberchain.Permission
