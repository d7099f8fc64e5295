import Amberchain.Permission.VirtualRollBack

/-!
# The chains of the rows

Every row links to the newest older row of its key, in the ledger and in the mempool, also
while the miners of a fork are verified.  The loops that follow the links come to an end and
stay among the rows of one key.
-/

namespace Amberchain.Permission

open RowChain

def Links (row : ℕ → LedgerRow) (base : ℕ) : Prop :=
  ∀ i, 0 < i → i < base → (row i).key.type ≠ MC_PTP_BLOCK_INDEX →
    (row i).prevRow = 0 ∨
      (row i).prevRow < i ∧ (row (row i).prevRow).key = (row i).key ∧
        (row (row i).prevRow).blockReceived ≤ (row i).blockReceived

section Links

variable {row : ℕ → LedgerRow} {base : ℕ}

theorem links_of_linked (hlinked : ∀ key, key.type ≠ MC_PTP_BLOCK_INDEX →
      LinkedAt (keyAt row) (prevAt row) key base) (hreceived : ∀ i j, 0 < i → i ≤ j → j < base →
      (row i).blockReceived ≤ (row j).blockReceived) : Links row base := by
  intro i hpos hlt htype
  have hprev : (row i).prevRow = newestRow row (row i).key i := hlinked _ htype i hpos hlt rfl
  by_cases hnone : newestRow row (row i).key i = 0
  · exact .inl (hprev.trans hnone)
  have hbefore := lastRow_lt hnone
  rw [hprev]
  exact .inr ⟨hbefore, key_lastRow hnone, hreceived _ _ (Nat.pos_of_ne_zero hnone) hbefore.le hlt⟩

/-- A walk along the links stays with the key and goes down at every step until it ends. -/
theorem Links.walk (hlinks : Links row base) {i : ℕ} (hlt : i < base)
    (htype : (row i).key.type ≠ MC_PTP_BLOCK_INDEX) (n : ℕ)
    (hgoes : ∀ m < n, (prevAt row)^[m] i ≠ 0) : (prevAt row)^[n] i = 0 ∨
      keyAt row ((prevAt row)^[n] i) = keyAt row i ∧ (prevAt row)^[n] i + n ≤ i := by
  induction n with
  | zero => exact .inr ⟨rfl, le_rfl⟩
  | succ n ih =>
    have hbefore := hgoes n (Nat.lt_succ_self n)
    rcases ih fun m hm => hgoes m (hm.trans (Nat.lt_succ_self n)) with hzero | ⟨hkey, hle⟩
    · exact absurd hzero hbefore
    rw [Function.iterate_succ_apply']
    have hsame : (row ((prevAt row)^[n] i)).key = (row i).key := hkey
    rcases hlinks _ (Nat.pos_of_ne_zero hbefore) (by omega) (hsame ▸ htype) with
      hend | ⟨hprev, hprevKey, -⟩
    · exact .inl hend
    refine .inr ⟨hprevKey.trans hkey, ?_⟩
    have hstep : prevAt row ((prevAt row)^[n] i) < (prevAt row)^[n] i := hprev
    omega

end Links

def ForkStep.Replays : ForkStep → Prop
  | .grant given => given.entity = nullEntity ∧ given.type &&& ~~~(MC_PTP_ADMIN ||| MC_PTP_MINE) = 0
  | _ => True

namespace Store

/-- The keys that are looked up: all but those of the block index, and only those that decide
who may mine while a fork is verified. -/
def LookedUp (store : Store) (key : PermKey) : Prop :=
  key.type ≠ MC_PTP_BLOCK_INDEX ∧
    (store.copiedRow = 0 ∨ key.entity = nullEntity ∧ isForkType key.type = true)

structure WellLinked (params : ChainParams) (store : Store) : Prop where
  thisRow : ∀ (i : ℕ) (_ : i < store.memPool.length),
    store.memPool[i].thisRow = store.row - store.memPool.length + i
  log : Links store.logRow store.row
  file : Links store.ledger.getRow (max store.memPoolStart store.copiedRow)
  committed : ∀ key, store.LookedUp key → (store.getPermission key false).2.thisRow =
    newestRow store.ledger.getRow key store.memPoolStart
  newest : ∀ key, store.LookedUp key →
    (store.getPermission key true).2.thisRow = newestRow store.logRow key store.row
  walk : ∀ i n, i < store.row → (store.logRow i).key.type ≠ MC_PTP_BLOCK_INDEX →
    (∀ m < n, (prevAt store.logRow)^[m] i ≠ 0) → (prevAt store.logRow)^[n] i = 0 ∨
      keyAt store.logRow ((prevAt store.logRow)^[n] i) = keyAt store.logRow i ∧
        (prevAt store.logRow)^[n] i + n ≤ i
  settles : ∀ grant type, store.LookedUp ⟨grant.entity, grant.address, type⟩ →
    (store.setType params grant type).2 ≠ some .internalError

structure Chained (store : Store) : Prop where
  chain : PoolChain store
  received : ∀ i j, 0 < i → i ≤ j → j < store.row →
    (store.logRow i).blockReceived ≤ (store.logRow j).blockReceived
  shows : ∀ key, store.LookedUp key → store.ShowsBelow key store.memPoolStart
  file : Links store.ledger.getRow (max store.memPoolStart store.copiedRow)

variable {params : ChainParams} {store : Store}

/-- The loop of `VerifyConsensus` ends before its rounds do. -/
theorem verifyConsensusLoop_ends (hlinks : Links store.logRow store.row)
    {newRow lastRow : LedgerRow} : ∀ (fuel : ℕ) (row : LedgerRow) (tmpPool : List LedgerRow)
      (required : ℤ), row.prevRow < fuel → row.prevRow < store.row →
      (row.prevRow ≠ 0 → (store.logRow row.prevRow).key.type ≠ MC_PTP_BLOCK_INDEX) →
      store.verifyConsensusLoop newRow lastRow fuel row tmpPool required ≠
        .error .internalError := by
  intro fuel
  induction fuel with
  | zero => exact fun row _ _ hfuel => absurd hfuel (Nat.not_lt_zero _)
  | succ fuel ih =>
    intro row tmpPool required hfuel hlt htype
    unfold Store.verifyConsensusLoop
    dsimp only
    split
    · simp
    split
    · simp
    next hprev =>
    split
    · next err herr =>
      unfold previousRow at herr
      split at herr
      · cases herr
      dsimp only at herr
      split at herr
      · cases herr
        decide
      split at herr
      · cases herr
        decide
      · cases herr
    next previous hok =>
    have hrow : previous = store.logRow row.prevRow := by
      unfold previousRow at hok
      split at hok
      · next hge =>
        cases hok
        exact (logRow_of_ge hge).symm
      next hbelow =>
      dsimp only at hok
      split at hok
      · cases hok
      split at hok
      · cases hok
      cases hok
      exact (logRow_of_lt (not_le.mp hbelow)).symm
    split
    · simp
    have hnext := htype hprev
    rcases hlinks row.prevRow (Nat.pos_of_ne_zero hprev) hlt hnext with
      hend | ⟨hless, hkey, -⟩
    · rw [← hrow] at hend
      exact ih previous _ _ (by omega) (by omega) fun hne => absurd hend hne
    rw [← hrow] at hless hkey
    exact ih previous _ _ (by omega) (by omega) fun _ => by
      rw [hkey, hrow]
      exact hnext

theorem Chained.wellLinked (hstore : Chained store) : WellLinked params store := by
  have hchain := hstore.chain
  have hlinks := links_of_linked hchain.linked hstore.received
  have hnewest : ∀ key, store.LookedUp key →
      (store.getPermission key true).2.thisRow = newestRow store.logRow key store.row :=
    fun key hkey => (hchain.rowAt hkey.1 (hstore.shows key hkey)).thisRow
  refine ⟨fun i hlt => ?_, hlinks, hstore.file, fun key hkey => ?_, hnewest,
    fun i n hlt htype hgoes => hlinks.walk hlt htype n hgoes, fun grant type hkey => ?_⟩
  · rw [← logRow_memPool hlt]
    have hend := hchain.start_add_length
    exact hchain.thisRow _ (Nat.le_add_right _ _) (by omega)
  · exact (permissionRow_committed (hstore.shows key hkey)).thisRow
  have hrow := hnewest _ hkey
  have hlast : newestRow store.logRow ⟨grant.entity, grant.address, type⟩ store.row <
      store.row := by
    have hpos := hchain.le_row
    exact (lastRow_le_pred _ _ _).trans_lt (by omega)
  have hends : store.verifyConsensus params (store.grantRow grant type
      (store.getPermission ⟨grant.entity, grant.address, type⟩ true).2)
      (store.getPermission ⟨grant.entity, grant.address, type⟩ true).2 ≠
        .error .internalError := by
    unfold verifyConsensus
    dsimp only
    split
    · exact nofun
    have hprev : (store.grantRow grant type
        (store.getPermission ⟨grant.entity, grant.address, type⟩ true).2).prevRow =
        newestRow store.logRow ⟨grant.entity, grant.address, type⟩ store.row := hrow
    refine verifyConsensusLoop_ends hlinks _ _ _ _ ?_ ?_ fun hne => ?_
    · exact hprev.trans_lt (hlast.trans (Nat.lt_succ_self _))
    · exact hprev.trans_lt hlast
    rw [hprev] at hne ⊢
    have hkeyAt := key_lastRow hne
    rw [show (store.logRow _).key = _ from hkeyAt]
    exact hkey.1
  unfold setType
  dsimp only
  split
  · next err herr =>
    intro heq
    cases heq
    exact hends herr
  split <;> exact nofun

theorem Live.received_mono (hlive : Live store) {i j : ℕ} (hpos : 0 < i) (hle : i ≤ j)
    (hlt : j < store.row) : (store.logRow i).blockReceived ≤ (store.logRow j).blockReceived := by
  by_cases hj : j < store.memPoolStart
  · rw [logRow_of_lt hj, logRow_of_lt (by omega)]
    exact hlive.files.log.received_mono i j hpos hle hj
  rw [hlive.pool.received j (not_lt.mp hj) hlt]
  by_cases hi : i < store.memPoolStart
  · rw [logRow_of_lt hi]
    have hreceived := hlive.files.log.received_le i hpos hi
    unfold nextBlock
    omega
  exact (hlive.pool.received i (not_lt.mp hi) (by omega)).le

theorem Live.chained (hlive : Live store) : Chained store where
  chain := hlive.pool.toPoolChain
  received := fun _ _ hpos hle hlt => hlive.received_mono hpos hle hlt
  shows := fun _ hkey => hlive.showsBelow hkey.1
  file := by
    rw [hlive.notForking, Nat.max_zero]
    exact links_of_linked hlive.files.log.linked hlive.files.log.received_mono

/-- The store while the miners of a fork are verified: the mempool has the grants of admin and
mine permissions of the branch, in the order of its blocks. -/
structure OnFork (store : Store) : Prop extends Chained store where
  received_le : ∀ i, 0 < i → i < store.row → (store.logRow i).blockReceived ≤ store.nextBlock
  below : ∀ i, 0 < i → i < store.memPoolStart →
    ((store.logRow i).blockReceived : ℤ) ≤ store.forkBlock
  fork_le : store.forkBlock ≤ store.block
  copied : 0 < store.copiedRow
  grants : ∀ row ∈ store.memPool, isAdminMinerKey row.key = true

theorem lookedUp_of_isAdminMinerKey {key : PermKey} (hkey : isAdminMinerKey key = true) :
    store.LookedUp key := by
  simp only [isAdminMinerKey, decide_eq_true_eq] at hkey
  have htype : key.type ≠ MC_PTP_BLOCK_INDEX ∧ isForkType key.type = true := by
    rcases hkey.2 with heq | heq <;> rw [heq] <;> decide
  exact ⟨htype.1, .inr ⟨hkey.1, htype.2⟩⟩

theorem VirtuallyRolledBack.onFork {fork : Store} {height cut : ℕ} (hlive : Live store)
    (hfork : VirtuallyRolledBack store fork height cut) : OnFork fork := by
  have hstart : fork.memPoolStart = cut := by
    rw [memPoolStart, hfork.memPool, hfork.row, List.length_nil, Nat.sub_zero]
  have hcut := hfork.isCut
  have hlog : ∀ i, i < cut → store.ledger.getRow i = fork.logRow i := fun i hlt => by
    rw [logRow_of_lt (hstart.symm ▸ hlt), hfork.ledger]
  have hnext : fork.nextBlock = height + 1 := by
    rw [nextBlock, hfork.block]
    omega
  refine ⟨⟨⟨?_, ?_, ?_⟩, ?_, ?_, ?_⟩, ?_, ?_, ?_, ?_, ?_⟩
  · rw [hfork.memPool, hfork.row]
    exact hcut.pos
  · intro i hge hlt
    rw [hfork.row] at hlt
    omega
  · intro key htype
    rw [hfork.row]
    exact ((hlive.files.log.linked key htype).mono hcut.le_base).congr
      (fun i _ hlt => by rw [keyAt, keyAt, hlog i hlt])
      fun i _ hlt => by rw [prevAt, prevAt, hlog i hlt]
  · intro i j hpos hle hlt
    rw [hfork.row] at hlt
    rw [← hlog i (by omega), ← hlog j hlt]
    exact hlive.files.log.received_mono i j hpos hle (hlt.trans_le hcut.le_base)
  · rintro ⟨-, address, type⟩ ⟨-, hcopied | ⟨rfl, htype⟩⟩
    · rw [hfork.copiedRow] at hcopied
      exact absurd hcopied hlive.pool.start_pos.ne'
    rw [hstart]
    exact hfork.showsBelow hlive address htype
  · rw [hstart, hfork.copiedRow, hfork.ledger, max_eq_right hcut.le_base]
    exact links_of_linked hlive.files.log.linked hlive.files.log.received_mono
  · intro i hpos hlt
    rw [hfork.row] at hlt
    rw [← hlog i hlt]
    have hunder := hcut.under i hpos hlt
    omega
  · intro i hpos hlt
    rw [hstart] at hlt
    rw [← hlog i hlt, hfork.forkBlock]
    exact hcut.under i hpos hlt
  · rw [hfork.forkBlock, hfork.block]
  · rw [hfork.copiedRow]
    exact hlive.pool.start_pos
  rw [hfork.memPool]
  exact List.forall_mem_nil _

theorem OnFork.append {row : LedgerRow} {next : Store} (hfork : OnFork store)
    (happ : store.Appended row next) (hkey : isAdminMinerKey row.key = true) : OnFork next := by
  have hchain := hfork.chain
  have hext := happ.extends hchain (hfork.shows _ (lookedUp_of_isAdminMinerKey hkey))
  have hrows : ∀ i, 0 < i → i < next.row →
      i < store.row ∧ next.logRow i = store.logRow i ∨ i = store.row ∧ next.logRow i = row := by
    intro i _ hlt
    rw [hext.nextRow] at hlt
    rcases Nat.lt_succ_iff_lt_or_eq.mp hlt with hold | rfl
    · exact .inl ⟨hold, hext.logRow_of_lt_row hchain hold⟩
    · exact .inr ⟨rfl, hext.logRow_row hchain⟩
  obtain ⟨_, _, _, _, _, hnext⟩ := happ.eq_update
  have hcopied : next.copiedRow = store.copiedRow := happ.copiedRow_eq
  have hforkBlock : next.forkBlock = store.forkBlock := by rw [hnext]
  refine ⟨⟨hext.poolChain hchain, fun i j hpos hle hlt => ?_, fun key hlooked => ?_, ?_⟩,
    fun i hpos hlt => ?_, fun i hpos hlt => ?_, ?_, hcopied ▸ hfork.copied, ?_⟩
  · rcases hrows j (hpos.trans_le hle) hlt with ⟨hj, hrow⟩ | ⟨rfl, hrow⟩
    · rcases hrows i hpos (hle.trans_lt hlt) with ⟨-, hold⟩ | ⟨rfl, -⟩
      · rw [hrow, hold]
        exact hfork.received i j hpos hle hj
      · exact absurd hle (not_le.mpr hj)
    rcases hrows i hpos (hle.trans_lt hlt) with ⟨hi, hold⟩ | ⟨rfl, -⟩
    · rw [hrow, hold, hext.received]
      exact hfork.received_le i hpos hi
    · exact le_rfl
  · have hread := hfork.shows key (by rwa [LookedUp, ← hcopied])
    rw [hext.memPoolStart_eq]
    rwa [hnext]
  · rw [hext.memPoolStart_eq, hcopied, hext.ledger]
    exact hfork.file
  · rw [hext.nextBlock_eq]
    rcases hrows i hpos hlt with ⟨hi, hold⟩ | ⟨rfl, hrow⟩
    · rw [hold]
      exact hfork.received_le i hpos hi
    · rw [hrow, hext.received]
  · rw [hext.memPoolStart_eq] at hlt
    rw [hforkBlock, hext.logRow_of_lt_row hchain (hlt.trans_le (Nat.sub_le _ _))]
    exact hfork.below i hpos hlt
  · rw [hforkBlock, hext.block]
    exact hfork.fork_le
  rw [hext.memPool, List.forall_mem_append]
  exact ⟨hfork.grants, List.forall_mem_singleton.mpr hkey⟩

theorem OnFork.advance {next : Store} (hfork : OnFork store) (hnext : Advanced store next) :
    OnFork next := by
  have hblock : store.nextBlock ≤ next.nextBlock :=
    Int.toNat_le_toNat (Int.add_le_add_right hnext.block_le 1)
  have hrows := hnext.records.rows
  have hle := hfork.fork_le.trans hnext.block_le
  rw [hnext.frame] at hblock hrows hle ⊢
  refine ⟨⟨⟨hfork.chain.le_row, hfork.chain.thisRow, hfork.chain.linked⟩, hfork.received,
    fun key hkey => ?_, hfork.file⟩, fun i hpos hlt => (hfork.received_le i hpos hlt).trans hblock,
    hfork.below, hle, hfork.copied, hfork.grants⟩
  have hread := hfork.shows key hkey
  unfold ShowsBelow committedRow at hread ⊢
  rwa [hrows]

/-- Replaying a grant of the branch adds rows of admin and mine keys only. -/
theorem OnFork.setPermission (hfork : OnFork store) {grant : Grant}
    (hreplays : (ForkStep.grant grant).Replays) : OnFork (store.setPermission params grant).1 := by
  unfold Store.setPermission
  split
  · exact hfork
  have hlisted : ∀ type ∈ (permissionTypes params).filter fun type => type &&& grant.type ≠ 0,
      isGrantType type = true ∧ (type = MC_PTP_ADMIN ∨ type = MC_PTP_MINE) := by
    intro type hmem
    obtain ⟨hlisted, hmask⟩ := List.mem_filter.mp hmem
    have hall : (permissionTypes params).all (fun type => type = MC_PTP_ADMIN ∨
        type = MC_PTP_MINE ∨ type &&& ~~~(MC_PTP_ADMIN ||| MC_PTP_MINE) = type) = true := by
      unfold permissionTypes
      split <;> split <;> decide
    refine ⟨isGrantType_of_mem params hlisted, ?_⟩
    rcases of_decide_eq_true (List.all_eq_true.mp hall type hlisted) with hadmin | hmine | hother
    · exact .inl hadmin
    · exact .inr hmine
    rw [← hother, BitVec.and_assoc, BitVec.and_comm _ grant.type, hreplays.2] at hmask
    simp at hmask
  refine setTypes_adds params grant (fun store row next type hstore hadds htype hkey => ?_) _
    hlisted store hfork
  have hentity : grant.entity = nullEntity := hreplays.1
  exact hstore.append hadds.appended (by simp [isAdminMinerKey, hkey, hentity, htype])

/-- A state in a fork verification that replays the grants of a branch. -/
theorem Live.onFork (hlive : Live store) {height : ℕ} (hheight : (height : ℤ) ≤ store.block)
    {steps : List ForkStep} (hsteps : ∀ step ∈ steps, step.Replays) :
    OnFork (store.forkState params height steps) := by
  obtain ⟨cut, hcut⟩ := hlive.virtuallyRolledBack hheight
  have hbefore := (forked_rollBackBefore hlive hheight).2
  have hstart := hcut.onFork hlive
  unfold forkState forkSteps
  generalize (store.rollBackBeforeMinerVerification height).1 = fork at hbefore hstart ⊢
  induction steps generalizing fork with
  | nil => exact hstart
  | cons step steps ih =>
    obtain ⟨hstep, hrest⟩ := List.forall_mem_cons.mp hsteps
    refine ih hrest _ (hbefore.step params hlive step) ?_
    have hmarker := hbefore.records.listMarker.trans hlive.files.index.listMarker
    cases step with
    | grant grant => exact hstart.setPermission hstep
    | increment count => exact hstart.advance (advanced_incrementBlock hmarker count)
    | storeInfo miner hash =>
      exact hstart.advance (advanced_storeBlockInfo params hmarker miner hash)

/-- The chains are well-founded in every state that the node reaches, while the mempool is set
aside for a block, and at every point of a fork verification that replays the admin and mine
grants of a branch. -/
theorem chains_wellLinked (hreach : Reachable params store) :
    WellLinked params store ∧ WellLinked params store.copyMemPool ∧
      WellLinked params store.copyMemPool.clearMemPool ∧
      ∀ (height : ℕ) (steps : List ForkStep), (height : ℤ) ≤ store.block →
        (∀ step ∈ steps, step.Replays) →
          WellLinked params (store.forkState params height steps) := by
  have hlive := hreach.live
  have hcopied : Live store.copyMemPool := hlive.of_frame (RecordsAdded.refl _) rfl
  exact ⟨hlive.chained.wellLinked, hcopied.chained.wellLinked,
    hcopied.clearMemPool_atRest.live.chained.wellLinked, fun height steps hheight hsteps =>
      (hlive.onFork hheight hsteps).toChained.wellLinked⟩

theorem minedOnce_wellLinked : WellLinked .defaults minedOnce ∧
    WellLinked .defaults minedOnce.copyMemPool ∧
    WellLinked .defaults minedOnce.copyMemPool.clearMemPool ∧
    ∀ (height : ℕ) (steps : List ForkStep), (height : ℤ) ≤ minedOnce.block →
      (∀ step ∈ steps, step.Replays) →
        WellLinked .defaults (minedOnce.forkState .defaults height steps) :=
  chains_wellLinked minedOnce_reachable

def entityGrant : Grant :=
  { firstMinerGrant with entity := 5, type := MC_PTP_CONNECT, flags := MC_PFL_ENTITY_GENESIS }

def connectedOnce : Store :=
  minedOnce.addBlock .defaults ⟨[.grant entityGrant], firstMiner, 2⟩

/-- Connect permissions are not looked up at the fork height, so the row of one that is granted
during a fork verification links to a row of the chain that is not older. -/
theorem connectedOnce_not_wellLinked : Reachable .defaults connectedOnce ∧
    ¬WellLinked .defaults (connectedOnce.forkState .defaults 0 [.grant entityGrant]) := by
  refine ⟨minedOnce_reachable.addBlock (by decide +kernel) _, fun hlinked => ?_⟩
  rcases hlinked.log 5 (by decide) (by decide +kernel) (by decide +kernel) with
    hnone | ⟨hless, -⟩
  · exact absurd hnone (by decide +kernel)
  exact absurd hless (by decide +kernel)

end Store

end Amberchain.Permission
