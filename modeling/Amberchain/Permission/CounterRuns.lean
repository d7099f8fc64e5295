import Amberchain.Permission.Counters

/-!
# Runs that keep the counters exact

Any order of grants, checkpoints, mempool copies, commits and rollbacks keeps the
counters equal to what the lookups show, as long as no grant names the zero
address and a checkpoint or a copy is brought back only while its rows are those
of the mempool's own block.
-/

namespace Amberchain.Permission

open RowChain

/-- An operation on the store, between two blocks or of a whole block. -/
inductive CounterOp where
  | call (call : Call)
  | setCheckPoint
  | rollBackToCheckPoint
  | copyMemPool
  | clearMemPool
  | restoreMemPool
  | commit (miner : Hash160) (hash : Hash256)
  | rollBack (height : ℤ)

namespace Store

variable (params : ChainParams)

def applyCounterOp (store : Store) : CounterOp → Store
  | .call call => store.call params call
  | .setCheckPoint => store.setCheckPoint
  | .rollBackToCheckPoint => store.rollBackToCheckPoint
  | .copyMemPool => store.copyMemPool
  | .clearMemPool => store.clearMemPool
  | .restoreMemPool => store.restoreMemPool
  | .commit miner hash => store.commit params miner hash
  | .rollBack height => store.rollBack height

def InHeightRange (store : Store) : CounterOp → Prop
  | .commit _ _ => store.block + 1 < 2 ^ 31
  | .rollBack height => -1 ≤ height ∧ height ≤ store.block
  | _ => True

/-- The states that these operations reach from empty files. -/
inductive CounterReachable : Store → Prop where
  | start : CounterReachable (initializeFrom .empty .empty).1
  | apply {store : Store} (op : CounterOp) (hstore : CounterReachable store)
      (hop : store.InHeightRange op) : CounterReachable (store.applyCounterOp params op)

def Grant.namesZero (grant : Grant) : Prop :=
  grant.entity = nullEntity ∧ grant.address = 0 ∧
    grant.type &&& (MC_PTP_ADMIN ||| MC_PTP_MINE) ≠ 0

/-- Whether the checkpoint and the mempool copy are of the mempool's own rows: the
checkpoint since the mempool was last cleared or restored, the copy since the last
commit or rollback. -/
structure Kept where
  checkPoint : Bool
  copy : Bool

def Kept.after (kept : Kept) : CounterOp → Kept
  | .setCheckPoint => { kept with checkPoint := true }
  | .copyMemPool => { kept with copy := true }
  | .clearMemPool | .restoreMemPool => { kept with checkPoint := false }
  | .commit _ _ | .rollBack _ => ⟨false, false⟩
  | .call _ | .rollBackToCheckPoint => kept

def Kept.Careful (kept : Kept) : CounterOp → Prop
  | .call (.grant grant) => ¬ Grant.namesZero grant
  | .rollBackToCheckPoint => kept.checkPoint = true
  | .restoreMemPool => kept.copy = true
  | _ => True

/-- The runs all of whose operations are careful. -/
inductive CarefulRun : Store → Kept → Prop where
  | start : CarefulRun (initializeFrom .empty .empty).1 ⟨false, false⟩
  | apply {store : Store} {kept : Kept} (op : CounterOp) (hrun : CarefulRun store kept)
      (hop : store.InHeightRange op) (hcareful : kept.Careful op) :
      CarefulRun (store.applyCounterOp params op) (kept.after op)

variable {params} {store : Store} {kept : Kept}

theorem CarefulRun.reachable (hrun : CarefulRun params store kept) :
    CounterReachable params store := by
  induction hrun with
  | start => exact .start
  | apply op _ hop _ ih => exact ih.apply op hop

structure KeptCounted (store : Store) (kept : Kept) : Prop where
  counted : Counted store
  point : kept.checkPoint = true → PointCounted store
  copy : kept.copy = true → Counted store.withCopied

/-- A row about admin or mine permission of the zero address names it. -/
theorem address_ne_zero_of_careful {call : Call} {key : PermKey}
    (hcareful : kept.Careful (.call call)) (hcall : CallKey call key)
    (hadmin : isAdminMinerKey key = true) : key.address ≠ 0 := by
  obtain ⟨hentity, htype⟩ := of_decide_eq_true hadmin
  cases call with
  | grant grant =>
    intro hzero
    refine hcareful ⟨hcall.entity ▸ hentity, hcall.address ▸ hzero, fun hnone => ?_⟩
    refine hcall.mask ?_
    have hsub : key.type &&& (MC_PTP_ADMIN ||| MC_PTP_MINE) = key.type := by
      rcases htype with htype | htype <;> rw [htype] <;> decide
    calc
      key.type &&& grant.type
          = key.type &&& (grant.type &&& (MC_PTP_ADMIN ||| MC_PTP_MINE)) := by
        rw [BitVec.and_comm grant.type, ← BitVec.and_assoc, hsub]
      _ = 0 := by
        rw [hnone]
        exact BitVec.and_zero
  | approve approval =>
    have hupgrade : key.entity = upgradeEntity := hcall
    rw [hupgrade] at hentity
    exact absurd hentity (by decide)

theorem KeptCounted.call (hkept : KeptCounted store kept) {call : Call}
    (hcareful : kept.Careful (.call call)) : KeptCounted (store.call params call) kept :=
  call_adds params call (motive := fun next => KeptCounted next kept)
    (fun _ _ _ h hadds hkey =>
      ⟨h.counted.add hadds (address_ne_zero_of_careful hcareful hkey),
        fun hpoint => (h.point hpoint).add hadds (address_ne_zero_of_careful hcareful hkey),
        fun hcopy => (hadds.sameCopy h.counted.live).counted (h.copy hcopy)⟩) hkept

/-- Every careful operation keeps the counters those of the log. -/
theorem KeptCounted.apply (hkept : KeptCounted store kept) {op : CounterOp}
    (hop : store.InHeightRange op) (hcareful : kept.Careful op) :
    KeptCounted (store.applyCounterOp params op) (kept.after op) := by
  have hcounted := hkept.counted
  have hlive := hcounted.live
  cases op with
  | call call => exact hkept.call hcareful
  | setCheckPoint =>
    exact ⟨hcounted.of_frame rfl, fun _ => hcounted.setCheckPoint,
      fun hcopy => (hkept.copy hcopy).of_frame rfl⟩
  | rollBackToCheckPoint =>
    have hpoint := hkept.point hcareful
    have hcut := hpoint.rollBackToCheckPoint
    have hsame : SameCopy store store.rollBackToCheckPoint :=
      ⟨rfl, rfl, rfl, hpoint.point.rollBackToCheckPoint_start, rfl, ⟨rfl, rfl⟩, ⟨rfl, rfl⟩,
        ⟨rfl, rfl, rfl⟩⟩
    exact ⟨hcut.counted, fun _ => hcut, fun hcopy => hsame.counted (hkept.copy hcopy)⟩
  | copyMemPool =>
    obtain ⟨hsame, hcopied⟩ := hcounted.copyMemPool
    refine ⟨hsame, fun hpoint => ?_, fun _ => hcopied⟩
    have hold := hkept.point hpoint
    exact ⟨hsame, ⟨hsame.live, hold.point.size_le, hold.point.row, hold.point.counts⟩,
      hold.admins, hold.miners⟩
  | clearMemPool =>
    exact ⟨hcounted.clearMemPool, fun hpoint => absurd hpoint (by simp [Kept.after]),
      fun hcopy => hlive.clearMemPool_sameCopy.counted (hkept.copy hcopy)⟩
  | restoreMemPool =>
    obtain ⟨minerCount, hrestore⟩ := hlive.restoreMemPool_eq
    have hcopied := hkept.copy hcareful
    refine ⟨?_, fun hpoint => absurd hpoint (by simp [Kept.after]),
      fun _ => hlive.restoreMemPool_sameCopy.counted hcopied⟩
    show Counted store.restoreMemPool
    rw [hrestore]
    exact hcopied.of_frame rfl
  | commit miner hash =>
    exact ⟨hcounted.commit miner hash hop, fun hpoint => absurd hpoint (by simp [Kept.after]),
      fun hcopy => absurd hcopy (by simp [Kept.after])⟩
  | rollBack height =>
    exact ⟨hcounted.rollBack hop.1 hop.2, fun hpoint => absurd hpoint (by simp [Kept.after]),
      fun hcopy => absurd hcopy (by simp [Kept.after])⟩

theorem newStore_counted : Counted newStore := by
  refine newStore_atRest.counted (newStore_atRest.zeroFree fun i hi hlt _ => ?_)
  exact absurd hlt (by show ¬ i < 1; omega)

theorem CarefulRun.keptCounted (hrun : CarefulRun params store kept) : KeptCounted store kept := by
  induction hrun with
  | start =>
    exact ⟨newStore_counted, fun hpoint => absurd hpoint (by simp),
      fun hcopy => absurd hcopy (by simp)⟩
  | apply op _ hop hcareful ih => exact ih.apply hop hcareful

/-- In every careful run both counters are the number of addresses for which
`GetPermission` finds the permission, in every state reached. -/
theorem countsExact_of_careful (hrun : CarefulRun params store kept) : CountsExact store :=
  hrun.keptCounted.counted.exact

theorem minedOnce_careful : CarefulRun .defaults minedOnce ⟨false, false⟩ := by
  have hstart : CarefulRun .defaults newStore ⟨false, false⟩ := .start
  have hgranted := hstart.apply (.call (.grant firstMinerGrant)) trivial
    (fun hzero => absurd hzero.2.1 (by decide))
  have hbound : (newStore.call .defaults (.grant firstMinerGrant)).block + 1 < 2 ^ 31 := by
    decide +kernel
  exact hgranted.apply (.commit firstMiner 1) hbound trivial

theorem minedOnce_countsExact : CountsExact minedOnce :=
  countsExact_of_careful minedOnce_careful

def zeroGrant : Grant :=
  { firstMinerGrant with address := 0, type := MC_PTP_ADMIN, offset := 81 }

def zeroGranted : Store :=
  (minedOnce.call .defaults (.grant zeroGrant)).commit .defaults firstMiner 2

theorem zeroGranted_reachable : CounterReachable .defaults zeroGranted := by
  have hbound : (minedOnce.call .defaults (.grant zeroGrant)).block + 1 < 2 ^ 31 := by
    decide +kernel
  exact (minedOnce_careful.reachable.apply (.call (.grant zeroGrant)) trivial).apply
    (.commit firstMiner 2) hbound

/-- The recount after a commit leaves the zero address out. -/
theorem zeroGranted_not_countsExact :
    ¬ ∀ (params : ChainParams) (store : Store), CounterReachable params store →
      CountsExact store := by
  intro hexact
  have hadmins := (hexact .defaults zeroGranted zeroGranted_reachable).admins
  have hgranted : Live (minedOnce.call .defaults (.grant zeroGrant)) :=
    minedOnce_careful.keptCounted.counted.live.call .defaults (.grant zeroGrant)
  have hrest : AtRest zeroGranted :=
    hgranted.commit_atRest .defaults firstMiner 2 (by decide +kernel)
  have hzero : (0 : Hash160) ∈ zeroGranted.holders MC_PTP_ADMIN := by
    show zeroGranted.permission ⟨nullEntity, 0, MC_PTP_ADMIN⟩ ≠ 0
    decide +kernel
  -- the recount is the number of the other holders
  have hothers : zeroGranted.adminCount =
      BitVec.ofNat 32 (zeroGranted.holders MC_PTP_ADMIN \ {0}).ncard := by
    have hset : zeroGranted.holders MC_PTP_ADMIN \ {0} = {address | address ≠ 0 ∧
        allowedAt zeroGranted.ledger.getRow MC_PTP_ADMIN zeroGranted.row
          zeroGranted.nextBlock address} := by
      ext address
      have hindexed : (⟨nullEntity, address, MC_PTP_ADMIN⟩ : PermKey).type ≠
          MC_PTP_BLOCK_INDEX := ne_blockIndex_of_type (.inl rfl)
      have hread := hrest.rowAt hindexed true
      have hholds : address ∈ zeroGranted.holders MC_PTP_ADMIN ↔
          allowedAt zeroGranted.ledger.getRow MC_PTP_ADMIN zeroGranted.row
            zeroGranted.nextBlock address :=
        (zeroGranted.permission_ne_zero (by
          show MC_PTP_ADMIN ≠ 0
          decide)).trans (hread.inRange_iff zeroGranted.nextBlock)
      rw [Set.mem_sdiff, hholds]
      exact and_comm
    rw [hset]
    exact hrest.admins
  have hone := (ofNat_ncard_update (zeroGranted.holders MC_PTP_ADMIN \ {0})
    (zeroGranted.holders MC_PTP_ADMIN) 0 fun address hne => by
      exact ⟨fun hholds => ⟨hholds, hne⟩, And.left⟩).2.2.2 (by simp) hzero
  rw [← hadmins, ← hothers] at hone
  generalize zeroGranted.adminCount = count at hone
  have hnat := congrArg BitVec.toNat hone
  change count.toNat = (count.toNat + 1) % 2 ^ 32 at hnat
  omega

end Store

end Amberchain.Permission
