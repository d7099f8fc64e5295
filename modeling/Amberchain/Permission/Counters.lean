import Amberchain.Permission.LiveView

/-!
# The admin and miner counters

A grant moves the counters by what it changes for its own address, checkpoints
and copies of the mempool bring older values back, and a commit or a rollback
counts again.  The values agree with the lookups as long as nobody grants admin
or mine permission to the zero address, which the recount never visits, and a
checkpoint or a copy is not used once the rows it was made for are gone.
-/

namespace Amberchain.Permission

open RowChain

/-- Changing a set at one point moves its size by at most one. -/
theorem ofNat_ncard_update {α : Type*} [Finite α] (before after : Set α) (a : α)
    (hother : ∀ x, x ≠ a → (x ∈ after ↔ x ∈ before)) :
    (a ∈ before → a ∈ after → BitVec.ofNat 32 after.ncard = BitVec.ofNat 32 before.ncard) ∧
    (a ∉ before → a ∉ after → BitVec.ofNat 32 after.ncard = BitVec.ofNat 32 before.ncard) ∧
    (a ∈ before → a ∉ after → BitVec.ofNat 32 after.ncard = BitVec.ofNat 32 before.ncard + -1) ∧
    (a ∉ before → a ∈ after → BitVec.ofNat 32 after.ncard = BitVec.ofNat 32 before.ncard + 1) := by
  have hsame : (a ∈ before ↔ a ∈ after) → after = before := by
    intro hiff
    ext x
    by_cases hx : x = a
    · rw [hx]
      exact hiff.symm
    · exact hother x hx
  have hgrows : ∀ {small large : Set α}, a ∉ small → a ∈ large →
      (∀ x, x ≠ a → (x ∈ large ↔ x ∈ small)) →
      BitVec.ofNat 32 large.ncard = BitVec.ofNat 32 small.ncard + 1 := by
    intro small large hsmall hlarge hrest
    have hinsert : large = insert a small := by
      ext x
      by_cases hx : x = a
      · simp [hx, hlarge]
      · simp [hx, hrest x hx]
    rw [hinsert, Set.ncard_insert_of_notMem hsmall]
    exact BitVec.ofNat_add _ _
  refine ⟨fun hin hin' => ?_, fun hout hout' => ?_, fun hin hout => ?_, fun hout hin => ?_⟩
  · rw [hsame (iff_of_true hin hin')]
  · rw [hsame (iff_of_false hout hout')]
  · rw [hgrows hout hin fun x hx => (hother x hx).symm, BitVec.add_assoc]
    exact (BitVec.add_zero _).symm
  exact hgrows hout hin hother

instance : Finite Hash160 :=
  Finite.of_injective BitVec.toFin fun _ _ => BitVec.eq_of_toFin_eq

namespace Store

variable {params : ChainParams} {store next : Store}

/-- The addresses for which `GetPermission` finds the permission. -/
def holders (store : Store) (type : PermType) : Set Hash160 :=
  {address | store.permission ⟨nullEntity, address, type⟩ ≠ 0}

structure CountsExact (store : Store) : Prop where
  admins : store.adminCount = BitVec.ofNat 32 (store.holders MC_PTP_ADMIN).ncard
  miners : store.minerCount = BitVec.ofNat 32 (store.holders MC_PTP_MINE).ncard

theorem Live.mem_holders_iff (hlive : Live store) {type : PermType}
    (htype : type = MC_PTP_ADMIN ∨ type = MC_PTP_MINE) (address : Hash160) :
    address ∈ store.holders type ↔
      allowedAt store.logRow type store.row store.nextBlock address := by
  have hindex : (⟨nullEntity, address, type⟩ : PermKey).type ≠ MC_PTP_BLOCK_INDEX :=
    ne_blockIndex_of_type htype
  have hzero : (⟨nullEntity, address, type⟩ : PermKey).type ≠ 0 := by
    rcases htype with rfl | rfl
    · show MC_PTP_ADMIN ≠ 0
      decide
    show MC_PTP_MINE ≠ 0
    decide
  have hread := hlive.pool.rowAt hindex (hlive.showsBelow hindex)
  exact (store.permission_ne_zero hzero).trans (hread.inRange_iff store.nextBlock)

def ZeroFree (store : Store) : Prop :=
  ∀ i, 0 < i → i < store.row → isAdminMinerKey (store.logRow i).key = true →
    (store.logRow i).key.address ≠ 0

structure Counted (store : Store) : Prop where
  live : Live store
  zeroFree : ZeroFree store
  admins : store.adminCount = countAt store.logRow MC_PTP_ADMIN store.row store.nextBlock
  miners : store.minerCount = countAt store.logRow MC_PTP_MINE store.row store.nextBlock

/-- Without rows of the zero address the log counts all holders. -/
theorem ZeroFree.ofNat_ncard_holders (hzero : ZeroFree store) (hlive : Live store)
    {type : PermType} (htype : type = MC_PTP_ADMIN ∨ type = MC_PTP_MINE) :
    BitVec.ofNat 32 (store.holders type).ncard =
      countAt store.logRow type store.row store.nextBlock := by
  have hset : store.holders type =
      {address | address ≠ 0 ∧ allowedAt store.logRow type store.row store.nextBlock address} := by
    ext address
    rw [hlive.mem_holders_iff htype]
    refine ⟨fun hallowed => ⟨fun heq => ?_, hallowed⟩, And.right⟩
    subst heq
    have hkey : (store.logRow (newestRow store.logRow ⟨nullEntity, 0, type⟩ store.row)).key =
        ⟨nullEntity, 0, type⟩ := key_lastRow hallowed.1
    refine hzero _ (Nat.pos_of_ne_zero hallowed.1) (lastRow_lt hallowed.1) ?_ ?_
    · rw [hkey]
      exact isAdminMinerKey_of_type htype
    · rw [hkey]
  rw [hset]
  rfl

theorem Counted.exact (hcounted : Counted store) : CountsExact store where
  admins := hcounted.admins.trans
    (hcounted.zeroFree.ofNat_ncard_holders hcounted.live (Or.inl rfl)).symm
  miners := hcounted.miners.trans
    (hcounted.zeroFree.ofNat_ncard_holders hcounted.live (Or.inr rfl)).symm

/-- Fields that neither the log nor the counters depend on. -/
theorem Counted.of_frame {other : Store} (hcounted : Counted store) (hframe : other = { store with
        checkPointRow := other.checkPointRow
        checkPointAdminCount := other.checkPointAdminCount
        checkPointMinerCount := other.checkPointMinerCount
        checkPointMemPoolSize := other.checkPointMemPoolSize
        clearedMinerCountForMinerVerification := other.clearedMinerCountForMinerVerification
        copiedAdminCount := other.copiedAdminCount
        copiedMinerCount := other.copiedMinerCount
        copiedMemPool := other.copiedMemPool }) : Counted other := by
  have hlive : Live other := by
    refine hcounted.live.of_frame ?_ ?_
    · rw [hframe]
      exact RecordsAdded.refl _
    · rw [hframe]
  have hlog : other.logRow = store.logRow := by
    rw [hframe]
    rfl
  have hrow : other.row = store.row := by rw [hframe]
  have hnext : other.nextBlock = store.nextBlock := by
    rw [hframe]
    rfl
  have hadmins : other.adminCount = store.adminCount := by rw [hframe]
  have hminers : other.minerCount = store.minerCount := by rw [hframe]
  refine ⟨hlive, ?_, ?_, ?_⟩
  · unfold ZeroFree
    rw [hlog, hrow]
    exact hcounted.zeroFree
  · rw [hadmins, hlog, hrow, hnext]
    exact hcounted.admins
  rw [hminers, hlog, hrow, hnext]
  exact hcounted.miners

section Adds

variable {row : LedgerRow} (hlive : Live store) (hadds : store.Adds row next)

include hlive hadds

theorem Adds.extends : Extends store row next :=
  hadds.appended.extends hlive.pool.toPoolChain (hlive.showsBelow hadds.appended.type_ne)

theorem Adds.allowedAt_iff {type : PermType} {address : Hash160}
    (hkey : row.key ≠ ⟨nullEntity, address, type⟩) :
    allowedAt next.logRow type next.row next.nextBlock address ↔
      allowedAt store.logRow type store.row store.nextBlock address := by
  have hext := hadds.extends hlive
  have hold := fun i hlt => hext.logRow_of_lt_row hlive.pool.toPoolChain (i := i) hlt
  have hnew := hext.logRow_row hlive.pool.toPoolChain
  have hnewest : newestRow next.logRow ⟨nullEntity, address, type⟩ (store.row + 1) =
      newestRow next.logRow ⟨nullEntity, address, type⟩ store.row :=
    lastRow_succ_of_ne (by rw [keyAt, hnew]; exact hkey)
  rw [hext.nextRow, hext.nextBlock_eq, allowedAt, hnewest]
  exact allowedAt_congr (fun i _ hlt => by rw [hold i hlt]) (fun i _ hlt => by rw [hold i hlt])
    fun i _ hlt => by rw [hold i hlt]

theorem Adds.live : Live next :=
  hlive.append hadds.appended

theorem Adds.countAt_other {type : PermType}
    (hkey : ∀ address, row.key ≠ ⟨nullEntity, address, type⟩) :
    countAt next.logRow type next.row next.nextBlock =
      countAt store.logRow type store.row store.nextBlock := by
  unfold countAt
  simp only [hadds.allowedAt_iff hlive (hkey _)]

theorem Adds.countAt_own {type : PermType} {address : Hash160}
    (htype : type = MC_PTP_ADMIN ∨ type = MC_PTP_MINE)
    (hkey : row.key = ⟨nullEntity, address, type⟩) (haddress : address ≠ 0) :
    countAt next.logRow type next.row next.nextBlock =
      countAt store.logRow type store.row store.nextBlock +
        countDelta (store.permission row.key) (next.permission row.key) := by
  classical
  have hnextLive := hadds.live hlive
  have hzero : (⟨nullEntity, address, type⟩ : PermKey).type ≠ 0 := by
    rcases htype with rfl | rfl
    · show MC_PTP_ADMIN ≠ 0
      decide
    show MC_PTP_MINE ≠ 0
    decide
  have hpermission : ∀ current : Store, current.permission row.key =
      if address ∈ current.holders type then type else 0 := by
    intro current
    have hne := current.permission_ne_zero hzero
    rw [hkey]
    by_cases hheld : address ∈ current.holders type
    · rw [if_pos hheld]
      exact if_pos (hne.mp hheld)
    rw [if_neg hheld]
    exact not_not.mp hheld
  have hmem : ∀ {current : Store}, Live current →
      (address ∈ current.holders type ↔ address ∈ {address | address ≠ 0 ∧
          allowedAt current.logRow type current.row current.nextBlock address}) := by
    intro current hcurrent
    rw [hcurrent.mem_holders_iff htype]
    exact ⟨fun hallowed => ⟨haddress, hallowed⟩, And.right⟩
  obtain ⟨hstays, hmisses, hloses, hgains⟩ := ofNat_ncard_update
    {address | address ≠ 0 ∧ allowedAt store.logRow type store.row store.nextBlock address}
    {address | address ≠ 0 ∧ allowedAt next.logRow type next.row next.nextBlock address} address
    fun other hother => and_congr_right fun _ => hadds.allowedAt_iff hlive (by
      rw [hkey]
      exact fun heq => hother (congrArg PermKey.address heq).symm)
  have htypeZero : type ≠ 0 := hzero
  rw [hpermission store, hpermission next]
  unfold countAt
  by_cases hbefore : address ∈ store.holders type
  · by_cases hafter : address ∈ next.holders type
    · rw [hstays ((hmem hlive).mp hbefore) ((hmem hnextLive).mp hafter), if_pos hbefore,
        if_pos hafter, countDelta, if_pos rfl]
      exact (BitVec.add_zero _).symm
    rw [hloses ((hmem hlive).mp hbefore) (mt (hmem hnextLive).mpr hafter), if_pos hbefore,
      if_neg hafter, countDelta, if_neg htypeZero, if_pos htypeZero]
  by_cases hafter : address ∈ next.holders type
  · rw [hgains (mt (hmem hlive).mpr hbefore) ((hmem hnextLive).mp hafter), if_neg hbefore,
      if_pos hafter, countDelta, if_neg (Ne.symm htypeZero), if_neg (not_not.mpr rfl)]
  rw [hmisses (mt (hmem hlive).mpr hbefore) (mt (hmem hnextLive).mpr hafter),
    if_neg hbefore, if_neg hafter]
  exact (BitVec.add_zero _).symm

end Adds

/-- Adding a row that names no zero address keeps the counters those of the
log. -/
theorem Counted.add {row : LedgerRow} (hcounted : Counted store) (hadds : store.Adds row next)
    (hrow : isAdminMinerKey row.key = true → row.key.address ≠ 0) : Counted next := by
  have hlive := hcounted.live
  have hext := hadds.extends hlive
  have hold := fun i hlt => hext.logRow_of_lt_row hlive.pool.toPoolChain (i := i) hlt
  have hnew := hext.logRow_row hlive.pool.toPoolChain
  have hsaved : store.saveClearedCounts.adminCount = store.adminCount ∧
      store.saveClearedCounts.minerCount = store.minerCount := by
    unfold saveClearedCounts
    split <;> exact ⟨rfl, rfl⟩
  -- the counters move only for a row of their own type
  have hadmins : next.adminCount =
      if row.key.entity = nullEntity ∧ row.key.type = MC_PTP_ADMIN then
        store.adminCount + countDelta (store.permission row.key) (next.permission row.key)
      else store.adminCount := by
    rw [hadds.counted]
    unfold adjustCounts
    split
    · show store.saveClearedCounts.adminCount + _ = _
      rw [hsaved.1]
      rfl
    · split <;> exact hsaved.1
  have hminers : next.minerCount =
      if row.key.entity = nullEntity ∧ row.key.type = MC_PTP_MINE then
        store.minerCount + countDelta (store.permission row.key) (next.permission row.key)
      else store.minerCount := by
    rw [hadds.counted]
    unfold adjustCounts
    split
    next hadmin =>
      rw [if_neg fun hmine => absurd (hadmin.2.symm.trans hmine.2) (by decide)]
      exact hsaved.2
    · split
      · show store.saveClearedCounts.minerCount + _ = _
        rw [hsaved.2]
        rfl
      · exact hsaved.2
  have hcount : ∀ type, type = MC_PTP_ADMIN ∨ type = MC_PTP_MINE →
      countAt next.logRow type next.row next.nextBlock =
        if row.key.entity = nullEntity ∧ row.key.type = type then
          countAt store.logRow type store.row store.nextBlock +
            countDelta (store.permission row.key) (next.permission row.key)
        else countAt store.logRow type store.row store.nextBlock := by
    intro type htype
    by_cases hkey : row.key.entity = nullEntity ∧ row.key.type = type
    · obtain ⟨hentity, htypeEq⟩ := hkey
      have heq : row.key = ⟨nullEntity, row.key.address, type⟩ := by rw [← hentity, ← htypeEq]
      rw [if_pos ⟨hentity, htypeEq⟩]
      refine hadds.countAt_own hlive htype heq (hrow ?_)
      rw [heq]
      exact isAdminMinerKey_of_type htype
    rw [if_neg hkey]
    refine hadds.countAt_other hlive fun address heq => hkey ?_
    rw [heq]
    exact ⟨rfl, rfl⟩
  refine ⟨hadds.live hlive, ?_, ?_, ?_⟩
  · intro i hi hlt hadmin
    rw [hext.nextRow] at hlt
    by_cases hlast : i = store.row
    · rw [hlast, hnew] at hadmin ⊢
      exact hrow hadmin
    rw [hold i (by omega)] at hadmin ⊢
    exact hcounted.zeroFree i hi (by omega) hadmin
  · rw [hadmins, hcount _ (.inl rfl), hcounted.admins]
  rw [hminers, hcount _ (.inr rfl), hcounted.miners]

structure PointCounted (store : Store) : Prop where
  counted : Counted store
  point : CheckPointed store
  admins : store.checkPointAdminCount =
    countAt store.logRow MC_PTP_ADMIN store.checkPointRow store.nextBlock
  miners : store.checkPointMinerCount =
    countAt store.logRow MC_PTP_MINE store.checkPointRow store.nextBlock

theorem Counted.setCheckPoint (hcounted : Counted store) : PointCounted store.setCheckPoint :=
  ⟨hcounted.of_frame rfl, hcounted.live.setCheckPoint, hcounted.admins, hcounted.miners⟩

theorem PointCounted.add {row : LedgerRow} (hpoint : PointCounted store)
    (hadds : store.Adds row next)
    (hrow : isAdminMinerKey row.key = true → row.key.address ≠ 0) : PointCounted next := by
  have hlive := hpoint.counted.live
  have hext := hadds.extends hlive
  have hend := hlive.pool.start_add_length
  have hsize := hpoint.point.size_le
  have hstart := hpoint.point.row
  obtain ⟨_, _, _, _, _, hnext⟩ := hadds.appended.eq_update
  have hrowEq : next.checkPointRow = store.checkPointRow := by rw [hnext]
  have hcount : ∀ type, countAt next.logRow type store.checkPointRow next.nextBlock =
      countAt store.logRow type store.checkPointRow store.nextBlock := by
    intro type
    have hold : ∀ i, i < store.checkPointRow → next.logRow i = store.logRow i :=
      fun i hlt => hext.logRow_of_lt_row hlive.pool.toPoolChain (by omega)
    rw [hext.nextBlock_eq]
    exact countAt_congr type _ (fun i _ hlt => by rw [hold i hlt])
      (fun i _ hlt => by rw [hold i hlt]) fun i _ hlt => by rw [hold i hlt]
  refine ⟨hpoint.counted.add hadds hrow, hpoint.point.append hadds.appended, ?_, ?_⟩
  · rw [hrowEq, hcount, ← hpoint.admins, hnext]
  rw [hrowEq, hcount, ← hpoint.miners, hnext]

theorem PointCounted.rollBackToCheckPoint (hpoint : PointCounted store) :
    PointCounted store.rollBackToCheckPoint := by
  have hcut := hpoint.point.rollBackToCheckPoint
  have hlive := hpoint.counted.live
  have hsize := hpoint.point.size_le
  have hstart := hpoint.point.row
  have hend := hlive.pool.start_add_length
  have hold : ∀ i, i < store.checkPointRow → store.rollBackToCheckPoint.logRow i = store.logRow i :=
    fun i hlt => (hpoint.point.rollBackToCheckPoint_logRow hlt).symm
  have hcount : ∀ type, countAt store.rollBackToCheckPoint.logRow type store.checkPointRow
      store.nextBlock = countAt store.logRow type store.checkPointRow store.nextBlock :=
    fun type => countAt_congr type _ (fun i _ hlt => by rw [hold i hlt])
      (fun i _ hlt => by rw [hold i hlt]) fun i _ hlt => by rw [hold i hlt]
  have hadmins := hpoint.admins.trans (hcount MC_PTP_ADMIN).symm
  have hminers := hpoint.miners.trans (hcount MC_PTP_MINE).symm
  refine ⟨⟨hcut.live, fun i hi hlt hadmin => ?_, hadmins, hminers⟩, hcut, hadmins, hminers⟩
  have hlt : i < store.checkPointRow := hlt
  rw [hold i hlt] at hadmin ⊢
  exact hpoint.counted.zeroFree i hi (by omega) hadmin

def withCopied (store : Store) : Store :=
  { store with
    memPool := store.copiedMemPool
    row := store.memPoolStart + store.copiedMemPool.length
    adminCount := store.copiedAdminCount
    minerCount := store.copiedMinerCount }

theorem Counted.copyMemPool (hcounted : Counted store) :
    Counted store.copyMemPool ∧ Counted store.copyMemPool.withCopied := by
  have hend := hcounted.live.pool.start_add_length
  have hcopied : store.copyMemPool.withCopied = store.copyMemPool := by
    show { store.copyMemPool with row := store.memPoolStart + store.memPool.length } = _
    rw [hend]
    rfl
  rw [hcopied]
  exact ⟨hcounted.of_frame rfl, hcounted.of_frame rfl⟩

structure SameCopy (store other : Store) : Prop where
  db : other.db = store.db
  ledger : other.ledger = store.ledger
  block : other.block = store.block
  start : other.memPoolStart = store.memPoolStart
  notForking : other.copiedRow = store.copiedRow
  fork : other.copiedBlock = store.copiedBlock ∧ other.forkBlock = store.forkBlock
  cleared : other.clearedAdminCount = store.clearedAdminCount ∧
    other.clearedMinerCount = store.clearedMinerCount
  copied : other.copiedMemPool = store.copiedMemPool ∧
    other.copiedAdminCount = store.copiedAdminCount ∧
    other.copiedMinerCount = store.copiedMinerCount

theorem SameCopy.counted {other : Store} (hsame : SameCopy store other)
    (hcounted : Counted store.withCopied) : Counted other.withCopied := by
  refine hcounted.of_frame ?_
  unfold withCopied
  rw [hsame.start]
  cases other
  obtain ⟨rfl, rfl, rfl, _, rfl, ⟨rfl, rfl⟩, ⟨rfl, rfl⟩, ⟨rfl, rfl, rfl⟩⟩ := hsame
  rfl

theorem Adds.sameCopy {row : LedgerRow} (hlive : Live store) (hadds : store.Adds row next) :
    SameCopy store next := by
  have hext := hadds.extends hlive
  have hnextLive := hadds.live hlive
  have hcleared : next.clearedAdminCount = store.clearedAdminCount ∧
      next.clearedMinerCount = store.clearedMinerCount := by
    rw [hnextLive.clearedAdmins, hnextLive.clearedMiners, hlive.clearedAdmins,
      hlive.clearedMiners, hext.ledger, hext.memPoolStart_eq, hext.nextBlock_eq]
    exact ⟨rfl, rfl⟩
  obtain ⟨_, _, _, _, _, hnext⟩ := hadds.appended.eq_update
  refine ⟨hadds.appended.db_eq, hext.ledger, hext.block, hext.memPoolStart_eq, ?_, ?_, hcleared, ?_⟩
  · rw [hnext]
  · rw [hnext]
    exact ⟨rfl, rfl⟩
  rw [hnext]
  exact ⟨rfl, rfl, rfl⟩

theorem Live.clearMemPool_sameCopy (hlive : Live store) : SameCopy store store.clearMemPool := by
  obtain ⟨minerCount, hclear⟩ := hlive.clearMemPool_eq
  rw [hclear]
  exact ⟨rfl, rfl, rfl, rfl, rfl, ⟨rfl, rfl⟩, ⟨rfl, rfl⟩, ⟨rfl, rfl, rfl⟩⟩

theorem Live.restoreMemPool_eq (hlive : Live store) : ∃ minerCount, store.restoreMemPool =
    { store.withCopied with clearedMinerCountForMinerVerification := minerCount } := by
  obtain ⟨minerCount, hclear⟩ := hlive.clearMemPool_eq
  refine ⟨minerCount, ?_⟩
  unfold restoreMemPool restoreCopied
  rw [hclear]
  rfl

theorem Live.restoreMemPool_sameCopy (hlive : Live store) :
    SameCopy store store.restoreMemPool := by
  obtain ⟨minerCount, hrestore⟩ := hlive.restoreMemPool_eq
  rw [hrestore]
  refine ⟨rfl, rfl, rfl, ?_, rfl, ⟨rfl, rfl⟩, ⟨rfl, rfl⟩, ⟨rfl, rfl, rfl⟩⟩
  exact Nat.add_sub_cancel _ _

theorem AtRest.counted (hrest : AtRest store) (hzero : ZeroFree store) : Counted store := by
  have hlog : ∀ i, i < store.row → store.ledger.getRow i = store.logRow i :=
    fun i hlt => (logRow_of_lt (by rwa [memPoolStart_of_empty hrest.memPool])).symm
  have hcount : ∀ type, countAt store.ledger.getRow type store.row store.nextBlock =
      countAt store.logRow type store.row store.nextBlock :=
    fun type => countAt_congr type _ (fun i _ hlt => by rw [hlog i hlt])
      (fun i _ hlt => by rw [hlog i hlt]) fun i _ hlt => by rw [hlog i hlt]
  exact ⟨hrest.live, hzero, hrest.admins.trans (hcount _), hrest.miners.trans (hcount _)⟩

theorem AtRest.zeroFree (hrest : AtRest store) (hrows : ∀ i, 0 < i → i < store.row →
      isAdminMinerKey (store.ledger.getRow i).key = true →
      (store.ledger.getRow i).key.address ≠ 0) : ZeroFree store := by
  intro i hi hlt hadmin
  rw [logRow_of_lt (by rwa [memPoolStart_of_empty hrest.memPool])] at hadmin ⊢
  exact hrows i hi hlt hadmin

theorem Counted.clearMemPool (hcounted : Counted store) : Counted store.clearMemPool := by
  have hlive := hcounted.live
  have hrest := hlive.clearMemPool_atRest
  have hend := hlive.pool.start_add_length
  obtain ⟨minerCount, hclear⟩ := hlive.clearMemPool_eq
  have hrow : store.clearMemPool.row = store.memPoolStart := by rw [hclear]
  have hledger : store.clearMemPool.ledger = store.ledger := by rw [hclear]
  refine hrest.counted (hrest.zeroFree fun i hi hlt hadmin => ?_)
  rw [hrow] at hlt
  rw [hledger, ← logRow_of_lt hlt] at hadmin ⊢
  exact hcounted.zeroFree i hi (by omega) hadmin

theorem Counted.commit (hcounted : Counted store) (miner : Hash160) (hash : Hash256)
    (hbound : store.block + 1 < 2 ^ 31) : Counted (store.commit params miner hash) := by
  have hlive := hcounted.live
  have hrest := hlive.commit_atRest params miner hash hbound
  have hfilled := hlive.filled miner hash
  obtain ⟨_, hrow⟩ := hlive.commit_block params miner hash
  obtain ⟨blockMiners, hcommit⟩ := store.commit_eq params miner hash
  have hkey : ∀ i, i < store.row + 2 →
      ((store.commit params miner hash).ledger.getRow i).key =
        ((store.addBlockRows miner hash).logRow i).key := by
    intro i hlt
    rw [hcommit, ← stampedRow_key]
    exact congrArg LedgerRow.key (((hlive.blockStamped miner hash).getRow i).trans (if_pos hlt))
  refine hrest.counted (hrest.zeroFree fun i hi hlt hadmin => ?_)
  rw [hrow] at hlt
  rw [hkey i hlt] at hadmin ⊢
  by_cases hold : i < store.row
  · rw [hfilled.old i hold] at hadmin ⊢
    exact hcounted.zeroFree i hi hold hadmin
  by_cases hminer : i = store.row
  · rw [hminer, hfilled.minerRow] at hadmin
    exact absurd (of_decide_eq_true hadmin).2 (by
      show ¬ (MC_PTP_BLOCK_MINER = MC_PTP_ADMIN ∨ MC_PTP_BLOCK_MINER = MC_PTP_MINE)
      decide)
  have hindex : i = store.row + 1 := by omega
  rw [hindex, hfilled.indexRow] at hadmin
  exact absurd (of_decide_eq_true hadmin).2 (by
    show ¬ (MC_PTP_BLOCK_INDEX = MC_PTP_ADMIN ∨ MC_PTP_BLOCK_INDEX = MC_PTP_MINE)
    decide)

theorem Counted.rollBack (hcounted : Counted store) {height : ℤ} (hge : -1 ≤ height)
    (hle : height ≤ store.block) : Counted (store.rollBack height) := by
  have hlive := hcounted.live
  have hend := hlive.pool.start_add_length
  obtain ⟨cut, hrolled⟩ := hlive.rollBack_spec hge hle
  have hcut := hrolled.isCut.le_base
  refine hrolled.atRest.counted (hrolled.atRest.zeroFree fun i hi hlt hadmin => ?_)
  rw [hrolled.row] at hlt
  rw [hrolled.getRow, ← logRow_of_lt (by omega)] at hadmin ⊢
  exact hcounted.zeroFree i hi (by omega) hadmin

end Store

end Amberchain.Permission
