import Amberchain.Permission.Chains

/-!
# Miner rows on a fork

What `FindLastAllowedMinerRow` has to find is the newest row of an address that was received
before a block.  It finds it as long as it need not go back: where it does, the number of a row
is taken for an index of the mempool.
-/

namespace Amberchain.Permission

open RowChain

namespace Store

def latestBefore (store : Store) (key : PermKey) (block : ℕ) : ℕ :=
  lastRow (fun i => ((store.logRow i).key, decide ((store.logRow i).blockReceived < block)))
    (key, true) store.row

def mineIn (row : LedgerRow) (block : ℕ) : PermType :=
  if inRange row block then MC_PTP_MINE else 0

def mineBefore (store : Store) (address : Hash160) (block : ℕ) : PermType :=
  let latest := store.latestBefore ⟨nullEntity, address, MC_PTP_MINE⟩ block
  if latest = 0 then 0 else mineIn (store.logRow latest) block

/-- The indices of the mempool that the loop of `FindLastAllowedMinerRow` reads. -/
def walkedIndices (store : Store) (block : ℕ) : ℕ → LedgerRow → List ℕ
  | 0, _ => []
  | fuel + 1, row =>
    if store.memPoolStart ≤ row.thisRow ∧ block ≤ row.blockReceived ∧ 0 < row.prevRow then
      row.prevRow :: store.walkedIndices block fuel
        (store.memPool.getD row.prevRow (LedgerRow.zero ⟨0, 0, 0⟩))
    else []

/-- The indices of the mempool that `FindLastAllowedMinerRow` reads. -/
def minerRowIndices (store : Store) (row : LedgerRow) (block : ℕ) : List ℕ :=
  if row.thisRow < store.memPoolStart ∨ row.blockReceived < block then []
  else store.walkedIndices block store.memPool.length row

def newestMineRow (store : Store) (address : Hash160) : LedgerRow :=
  (store.getPermission ⟨nullEntity, address, MC_PTP_MINE⟩ true).2

/-- `FindLastAllowedMinerRow` need not go back from the newest row of the address. -/
def StaysAtNewest (store : Store) (address : Hash160) (block : ℕ) : Prop :=
  (store.newestMineRow address).thisRow < store.memPoolStart ∨
    (store.newestMineRow address).blockReceived < block ∨
    (store.newestMineRow address).prevRow = 0

def LooksUp (store : Store) (address : Hash160) (block : ℕ) : Prop :=
  store.findLastAllowedMinerRow (store.newestMineRow address) block
      (mineIn (store.newestMineRow address) block) = store.mineBefore address block ∧
    ∀ index ∈ store.minerRowIndices (store.newestMineRow address) block,
      index < store.memPool.length

variable {params : ChainParams} {store : Store} {address : Hash160} {block : ℕ}

section Latest

variable {key : PermKey}

theorem latestBefore_le : store.latestBefore key block ≤ newestRow store.logRow key store.row := by
  by_cases hnone : store.latestBefore key block = 0
  · rw [hnone]
    exact Nat.zero_le _
  exact le_lastRow (Nat.pos_of_ne_zero hnone) (lastRow_lt hnone)
    (congrArg Prod.fst (key_lastRow hnone))

theorem latestBefore_eq_newest (hnewest : newestRow store.logRow key store.row ≠ 0)
    (hreceived : (store.logRow (newestRow store.logRow key store.row)).blockReceived < block) :
    store.latestBefore key block = newestRow store.logRow key store.row := by
  refine le_antisymm latestBefore_le
    (le_lastRow (Nat.pos_of_ne_zero hnewest) (lastRow_lt hnewest) ?_)
  exact Prod.ext (key_lastRow hnewest) (decide_eq_true hreceived)

/-- Without an older row there is none received before a block that the newest row does not
precede. -/
theorem latestBefore_eq_zero (hchain : PoolChain store)
    (hkey : key.type ≠ MC_PTP_BLOCK_INDEX) (hnewest : newestRow store.logRow key store.row ≠ 0)
    (hreceived : block ≤ (store.logRow (newestRow store.logRow key store.row)).blockReceived)
    (hprev : (store.logRow (newestRow store.logRow key store.row)).prevRow = 0) :
    store.latestBefore key block = 0 := by
  by_contra hlatest
  have hfound := key_lastRow hlatest
  have hlt : store.latestBefore key block < newestRow store.logRow key store.row := by
    refine lt_of_le_of_ne latestBefore_le fun heq => ?_
    have hbefore := of_decide_eq_true (congrArg Prod.snd hfound)
    rw [show lastRow _ _ _ = store.latestBefore key block from rfl, heq] at hbefore
    exact absurd hbefore (not_lt.mpr hreceived)
  have hlinked : prevAt store.logRow (newestRow store.logRow key store.row) = newestRow _ key _ :=
    hchain.linked key hkey _ (Nat.pos_of_ne_zero hnewest) (lastRow_lt hnewest)
      (key_lastRow hnewest)
  have hsame : keyAt store.logRow (store.latestBefore key block) = key := congrArg Prod.fst hfound
  have hle := le_lastRow (Nat.pos_of_ne_zero hlatest) hlt hsame
  rw [prevAt, hprev] at hlinked
  rw [← newestRow, ← hlinked] at hle
  exact hlatest (Nat.le_zero.mp hle)

end Latest

theorem lookedUp_mine (store : Store) (address : Hash160) :
    store.LookedUp ⟨nullEntity, address, MC_PTP_MINE⟩ :=
  lookedUp_of_isAdminMinerKey (by simp [isAdminMinerKey])

/-- The newest row of an address: a row of the mempool, or one with the number and the range
of a row of the ledger. -/
theorem OnFork.newestMineRow_cases (hfork : OnFork store) (address : Hash160) (block : ℕ) :
    let newest := newestRow store.logRow ⟨nullEntity, address, MC_PTP_MINE⟩ store.row
    (store.newestMineRow address).thisRow = newest ∧
      (newest ≠ 0 → mineIn (store.newestMineRow address) block =
        mineIn (store.logRow newest) block) ∧
      (newest = 0 → mineIn (store.newestMineRow address) block = 0) ∧
      (store.memPoolStart ≤ newest → store.newestMineRow address = store.logRow newest) := by
  have hlooked := lookedUp_mine store address
  have hshows := hfork.shows _ hlooked
  have hat : RowAt store.logRow ⟨nullEntity, address, MC_PTP_MINE⟩ store.row
      (store.newestMineRow address) := hfork.chain.rowAt hlooked.1 hshows
  refine ⟨hat.thisRow, fun hsome => ?_, fun hnone => ?_, fun hge => ?_⟩
  · have hrange : inRange (store.newestMineRow address) block = inRange (store.logRow
        (newestRow store.logRow ⟨nullEntity, address, MC_PTP_MINE⟩ store.row)) block := by
      simp only [inRange, hat.blockFrom, hat.blockTo, newest, if_neg hsome]
    rw [mineIn, mineIn, hrange]
  · simp [mineIn, inRange, hat.blockFrom, hat.blockTo, newest, hnone, LedgerRow.zero]
  exact (hfork.chain.permissionRow_eq hlooked.1 hshows).trans (if_neg (not_lt.mpr hge))

theorem OnFork.looksUp (hfork : OnFork store) (hblock : store.forkBlock < block)
    (hstays : store.StaysAtNewest address block) : store.LooksUp address block := by
  obtain ⟨hthis, hsome, hnone, hpool⟩ := hfork.newestMineRow_cases address block
  have hspec : newestRow store.logRow ⟨nullEntity, address, MC_PTP_MINE⟩ store.row ≠ 0 →
      (store.logRow (newestRow store.logRow ⟨nullEntity, address, MC_PTP_MINE⟩
        store.row)).blockReceived < block →
      mineIn (store.newestMineRow address) block = store.mineBefore address block := by
    intro hnewest hreceived
    rw [hsome hnewest, mineBefore, latestBefore_eq_newest hnewest hreceived]
    exact (if_neg hnewest).symm
  unfold LooksUp findLastAllowedMinerRow minerRowIndices
  by_cases hbelow : (store.newestMineRow address).thisRow < store.memPoolStart
  · rw [if_pos hbelow, if_pos (.inl hbelow)]
    refine ⟨?_, List.forall_mem_nil _⟩
    rw [hthis] at hbelow
    by_cases hnewest : newestRow store.logRow ⟨nullEntity, address, MC_PTP_MINE⟩ store.row = 0
    · have hlatest : store.latestBefore ⟨nullEntity, address, MC_PTP_MINE⟩ block = 0 :=
        Nat.le_zero.mp (hnewest ▸ latestBefore_le)
      rw [hnone hnewest, mineBefore, hlatest]
      rfl
    have hreceived := hfork.below _ (Nat.pos_of_ne_zero hnewest) hbelow
    exact hspec hnewest (by omega)
  have hge := not_lt.mp hbelow
  rw [hthis] at hge
  have hrow := hpool hge
  have hpos := hfork.chain.start_pos
  rw [if_neg hbelow]
  by_cases hreceived : (store.newestMineRow address).blockReceived < block
  · rw [if_pos hreceived, if_pos (.inr hreceived)]
    exact ⟨hspec (by omega) (hrow ▸ hreceived), List.forall_mem_nil _⟩
  have hprev : (store.newestMineRow address).prevRow = 0 :=
    (hstays.resolve_left hbelow).resolve_left hreceived
  have hstop : store.walkMinerRow block store.memPool.length (store.newestMineRow address) =
        store.newestMineRow address ∧
      store.walkedIndices block store.memPool.length (store.newestMineRow address) = [] := by
    cases store.memPool.length with
    | zero => exact ⟨rfl, rfl⟩
    | succ fuel =>
      unfold walkMinerRow walkedIndices
      simp [hprev]
  have hlatest : store.latestBefore ⟨nullEntity, address, MC_PTP_MINE⟩ block = 0 :=
    latestBefore_eq_zero hfork.chain (lookedUp_mine store address).1 (by omega)
      (hrow ▸ not_lt.mp hreceived) (hrow ▸ hprev)
  rw [if_neg hreceived, if_neg (not_or.mpr ⟨hbelow, hreceived⟩)]
  rw [hstop.1, hstop.2, if_pos hprev, mineBefore, hlatest]
  exact ⟨rfl, List.forall_mem_nil _⟩

/-- Where it has to go back, the first index that is read is the number of the row before the
newest one, which is another row, if there is one at all. -/
theorem OnFork.minerRowIndices_eq (hfork : OnFork store)
    (hgoes : ¬store.StaysAtNewest address block) :
    ∃ rest, store.minerRowIndices (store.newestMineRow address) block =
      (store.newestMineRow address).prevRow :: rest := by
  obtain ⟨hbelow, hreceived, hprev⟩ := by simpa only [StaysAtNewest, not_or] using hgoes
  have hlength : store.memPool.length ≠ 0 := by
    have hthis := (hfork.newestMineRow_cases address block).1
    have hend := hfork.chain.start_add_length
    have hle := lastRow_le_pred (keyAt store.logRow) ⟨nullEntity, address, MC_PTP_MINE⟩ store.row
    have hpos := hfork.chain.start_pos
    rw [hthis, newestRow] at hbelow
    omega
  obtain ⟨fuel, hfuel⟩ := Nat.exists_eq_succ_of_ne_zero hlength
  unfold minerRowIndices
  rw [if_neg (not_or.mpr ⟨hbelow, hreceived⟩), hfuel, walkedIndices,
    if_pos ⟨not_lt.mp hbelow, not_lt.mp hreceived, Nat.pos_of_ne_zero hprev⟩]
  exact ⟨_, rfl⟩

theorem OnFork.looksUp_iff (hfork : OnFork store) (hblock : store.forkBlock < block)
    (houtside : store.memPool.length ≤ (store.newestMineRow address).prevRow) :
    store.LooksUp address block ↔ store.StaysAtNewest address block := by
  refine ⟨fun hlooks => ?_, hfork.looksUp hblock⟩
  by_contra hgoes
  obtain ⟨rest, hindices⟩ := hfork.minerRowIndices_eq hgoes
  have hread := hlooks.2 (store.newestMineRow address).prevRow (hindices ▸ (.head _))
  exact absurd hread (not_lt.mpr houtside)

theorem OnFork.updateCounts_minerCount (hfork : OnFork store) (hmarker : store.db.listMarker = true)
    (hlist : ∀ address, store.mineBefore address store.nextBlock ≠ 0 →
      (address, MC_PTP_MINE) ∈ store.db.adminMinerList)
    (hstays : ∀ address, store.StaysAtNewest address store.nextBlock)
    (hzero : store.mineBefore 0 store.nextBlock = 0) : store.updateCounts.minerCount =
      BitVec.ofNat 32 {address | store.mineBefore address store.nextBlock ≠ 0}.ncard := by
  have hblock : store.forkBlock < store.nextBlock := by
    have hle := hfork.fork_le
    unfold nextBlock
    omega
  have hallowed : ∀ address, store.minerAllowed address = true ↔
      store.mineBefore address store.nextBlock ≠ 0 := by
    intro address
    have hlooks := (hfork.looksUp hblock (hstays address)).1
    rw [← hlooks, minerAllowed, decide_eq_true_eq, if_pos hfork.copied]
    rfl
  have hset : {address | address ≠ 0 ∧ store.mineBefore address store.nextBlock ≠ 0} =
      {address | store.mineBefore address store.nextBlock ≠ 0} := by
    ext address
    refine and_iff_right_of_imp fun hmine heq => ?_
    exact hmine (heq ▸ hzero)
  rw [updateCounts, if_pos hmarker, ← hset]
  exact congrArg (BitVec.ofNat 32) (store.listCount_eq_ncard hlist hallowed)

/-- While a branch is verified, the miner row of an address is looked up at the right height if
the lookup need not go back from the newest row, and only then where the number of the row
before is no index of the mempool.  The miners are counted from these lookups. -/
theorem forkState_looksUp (hreach : Reachable params store) {height : ℕ}
    (hheight : (height : ℤ) ≤ store.block) {steps : List ForkStep}
    (hsteps : ∀ step ∈ steps, step.Replays) {fork : Store}
    (hfork : fork = store.forkState params height steps) :
    (∀ (address : Hash160) (block : ℕ), fork.forkBlock < block →
      (fork.StaysAtNewest address block → fork.LooksUp address block) ∧
      (fork.memPool.length ≤ (fork.newestMineRow address).prevRow →
        (fork.LooksUp address block ↔ fork.StaysAtNewest address block))) ∧
    ((∀ address, fork.mineBefore address fork.nextBlock ≠ 0 →
        (address, MC_PTP_MINE) ∈ fork.db.adminMinerList) →
      (∀ address, fork.StaysAtNewest address fork.nextBlock) →
      fork.mineBefore 0 fork.nextBlock = 0 → fork.updateCounts.minerCount =
        BitVec.ofNat 32 {address | fork.mineBefore address fork.nextBlock ≠ 0}.ncard) := by
  have hlive := hreach.live
  have hon : OnFork fork := hfork ▸ hlive.onFork hheight hsteps
  have hmarker : fork.db.listMarker = true := by
    rw [hfork]
    have hforked := (forked_rollBackBefore hlive hheight).2.steps params hlive steps
    exact hforked.records.listMarker.trans hlive.files.index.listMarker
  exact ⟨fun _ _ hblock => ⟨hon.looksUp hblock, hon.looksUp_iff hblock⟩,
    hon.updateCounts_minerCount hmarker⟩

def grantedTwice : List ForkStep :=
  [.grant secondMinerGrant, .increment 0, .grant secondMinerGrant]

theorem grantedTwice_replays : ∀ step ∈ grantedTwice, step.Replays := by
  intro step hmem
  simp only [grantedTwice, List.mem_cons, List.not_mem_nil, or_false] at hmem
  rcases hmem with rfl | rfl | rfl
  · exact ⟨rfl, rfl⟩
  · trivial
  exact ⟨rfl, rfl⟩

theorem grantedTwice_looksUp_first :
    (minedOnce.forkState .defaults 0 grantedTwice).LooksUp secondMinerGrant.address 3 :=
  ((forkState_looksUp minedOnce_reachable (by decide +kernel) grantedTwice_replays rfl).1
    secondMinerGrant.address 3 (by decide +kernel)).1
    (.inr (.inl (by decide +kernel)))

/-- At the height of the second grant the first one decides, but the loop reads behind the end
of the mempool. -/
theorem grantedTwice_not_looksUp : Reachable .defaults minedOnce ∧
    ¬∀ (address : Hash160) (block : ℕ),
      (minedOnce.forkState .defaults 0 grantedTwice).forkBlock < block →
        (minedOnce.forkState .defaults 0 grantedTwice).LooksUp address block := by
  refine ⟨minedOnce_reachable, fun hlooks => ?_⟩
  have hread := (hlooks secondMinerGrant.address 2 (by decide +kernel)).2 5 (by decide +kernel)
  exact absurd hread (by decide +kernel)

end Store

end Amberchain.Permission
