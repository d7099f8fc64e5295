import Amberchain.Permission.LiveView

/-!
# The committed chain

A run of the store carries the chain of blocks that its commits and rollbacks
have left.  Every block of the chain is recorded at the end of its rows, and the
block-index rows link from block to block.  A rollback does not take the
block-index keys of its blocks out of the database.
-/

namespace Amberchain.Permission

open RowChain

def LedgerRow.commitHash (row : LedgerRow) : Hash256 :=
  BitVec.ofNat 32 row.timestamp ++ BitVec.ofNat 32 row.grantTo
    ++ BitVec.ofNat 32 row.grantFrom ++ row.admin

/-- The four fields hold the whole hash. -/
theorem LedgerRow.commitHash_setCommitHash (row : LedgerRow) (hash : Hash256) :
    (row.setCommitHash hash).commitHash = hash := by
  unfold commitHash setCommitHash
  simp only [BitVec.ofNat_toNat, BitVec.setWidth_eq]
  ext i hi
  simp only [BitVec.getElem_append, BitVec.getElem_extractLsb']
  split
  · rw [Nat.zero_add, BitVec.getLsbD_eq_getElem]
  split
  · rw [Nat.add_sub_cancel' (by omega), BitVec.getLsbD_eq_getElem]
  split
  · rw [show 192 + (i - 160 - 32) = i by omega, BitVec.getLsbD_eq_getElem]
  rw [show 224 + (i - 160 - 32 - 32) = i by omega, BitVec.getLsbD_eq_getElem]

namespace Store

/-- What is committed with a block, and whether its grants change who may admin
or mine. -/
structure CommittedBlock where
  miner : Hash160
  hash : Hash256
  governance : Bool

def chainAfter (store : Store) (chain : List CommittedBlock) : Op → List CommittedBlock
  | .commit miner hash => chain ++ [⟨miner, hash, store.memPool.any store.isGovernanceChange⟩]
  | .rollBack height => chain.take (height + 1).toNat
  | _ => chain

/-- A run from empty files with the chain it has committed and the length of the
longest chain there was on the way. -/
inductive ChainRun (params : ChainParams) : Store → List CommittedBlock → ℕ → Prop where
  | start : ChainRun params (initializeFrom .empty .empty).1 [] 0
  | apply {store : Store} {chain : List CommittedBlock} {longest : ℕ} (op : Op)
      (hrun : ChainRun params store chain longest) (hop : store.Allowed op) :
      ChainRun params (store.apply params op) (store.chainAfter chain op)
        (max longest (store.chainAfter chain op).length)

theorem ChainRun.reachable {params : ChainParams} {store : Store}
    {chain : List CommittedBlock} {longest : ℕ} (hrun : ChainRun params store chain longest) :
    Reachable params store := by
  induction hrun with
  | start => exact .start
  | apply op _ hop ih => exact ih.apply op hop

/-- The last two rows below `last` record the block at a height. -/
structure BlockRecorded (row : ℕ → LedgerRow) (base height last : ℕ)
    (block : CommittedBlock) : Prop where
  isEnd : BlockEnd row base height last
  miner : (row (last - 2)).key = blockMinerKey block.miner
  hash : (row (last - 1)).commitHash = block.hash
  governance : (row (last - 1)).blockFlags &&& MC_PFB_GOVERNANCE_CHANGE ≠ 0 ↔
    block.governance = true

structure ChainLog (row : ℕ → LedgerRow) (base : ℕ) (chain : List CommittedBlock) : Prop where
  recorded : ∀ height block, chain[height]? = some block →
    ∃ last, BlockRecorded row base height last block
  linked : ∀ height last last', height + 1 < chain.length → BlockEnd row base height last →
    BlockEnd row base (height + 1) last' → prevAt row (last' - 1) = last - 1
  first : ∀ last, BlockEnd row base 0 last → prevAt row (last - 1) = 0
  indexRow : ∀ i, 0 < i → i < base → (row i).key.type = MC_PTP_BLOCK_INDEX →
    BlockEnd row base (row i).blockReceived (i + 1)

/-- The block-index keys above the chain: those of rolled-back blocks but the
first are still there, all others are not. -/
structure KeysLeft (db : PermissionDB) (length longest : ℕ) : Prop where
  stale : ∀ height, 1 ≤ height → length ≤ height → height < longest →
    ∃ dbRow, db.rows.lookup (blockIndexKey height) = some dbRow ∧ dbRow.ledgerRow ≠ 0
  absent : ∀ height < 2 ^ 32, longest ≤ height ∨ height = 0 ∧ length = 0 →
    db.rows.lookup (blockIndexKey height) = none

structure ChainInv (store : Store) (chain : List CommittedBlock) (longest : ℕ) : Prop where
  live : Live store
  length : (chain.length : ℤ) = store.block + 1
  le_longest : chain.length ≤ longest
  longest_le : longest ≤ 2 ^ 31
  log : ChainLog store.ledger.getRow store.memPoolStart chain
  keys : KeysLeft store.db chain.length longest

/-- The chain log does not see the counts of block-miner rows. -/
theorem ChainLog.recount {row row' : ℕ → LedgerRow} {base : ℕ} {chain : List CommittedBlock}
    (hlog : ChainLog row base chain) (hre : Recounted row row' base) :
    ChainLog row' base chain := by
  refine ⟨fun height block hblock => ?_, fun height last last' hlength hend hend' => ?_,
    fun last hend => ?_, fun i hi hlt htype => ?_⟩
  · obtain ⟨last, hrecorded⟩ := hlog.recorded height block hblock
    have htwo := hrecorded.isEnd.two_lt
    have hle := hrecorded.isEnd.le_base
    have hindex : row' (last - 1) = row (last - 1) := by
      refine hre.eq_of_ne (by omega) (by omega) fun address hkey => ?_
      have htypes := congrArg PermKey.type (hrecorded.isEnd.index.symm.trans hkey)
      exact absurd htypes (by
        show MC_PTP_BLOCK_INDEX ≠ MC_PTP_BLOCK_MINER
        decide)
    refine ⟨last, hre.blockEnd hrecorded.isEnd, ?_, ?_, ?_⟩
    · rw [hre.key (by omega) (by omega)]
      exact hrecorded.miner
    · rw [hindex]
      exact hrecorded.hash
    rw [hindex]
    exact hrecorded.governance
  · have hold := hre.symm.blockEnd hend
    have hold' := hre.symm.blockEnd hend'
    have htwo := hold'.two_lt
    have hle := hold'.le_base
    rw [prevAt, hre.prevRow (by omega) (by omega)]
    exact hlog.linked height last last' hlength hold hold'
  · have hold := hre.symm.blockEnd hend
    have htwo := hold.two_lt
    have hle := hold.le_base
    rw [prevAt, hre.prevRow (by omega) (by omega)]
    exact hlog.first last hold
  rw [hre.key hi hlt] at htype
  rw [hre.blockReceived hi hlt]
  exact hre.blockEnd (hlog.indexRow i hi hlt htype)

structure SameBlocks (store next : Store) : Prop where
  block : next.block = store.block
  start : next.memPoolStart = store.memPoolStart
  rows : next.db.rows = store.db.rows
  recounted : Recounted store.ledger.getRow next.ledger.getRow store.memPoolStart

theorem SameBlocks.of_ledger {store next : Store} (hblock : next.block = store.block)
    (hstart : next.memPoolStart = store.memPoolStart) (hrows : next.db.rows = store.db.rows)
    (hledger : next.ledger = store.ledger) : SameBlocks store next :=
  ⟨hblock, hstart, hrows, fun _ _ _ => .inl (by rw [hledger])⟩

theorem SameBlocks.inv {store next : Store} {chain : List CommittedBlock} {longest : ℕ}
    (hsame : SameBlocks store next) (hlive : Live next) (hinv : ChainInv store chain longest) :
    ChainInv next chain longest := by
  refine ⟨hlive, ?_, hinv.le_longest, hinv.longest_le, ?_, ?_⟩
  · rw [hsame.block]
    exact hinv.length
  · rw [hsame.start]
    exact hinv.log.recount hsame.recounted
  refine ⟨fun height hpos hge hlt => ?_, fun height hlt hover => ?_⟩
  · rw [hsame.rows]
    exact hinv.keys.stale height hpos hge hlt
  rw [hsame.rows]
  exact hinv.keys.absent height hlt hover

variable {params : ChainParams} {store : Store}

theorem SameView.sameBlocks {next : Store} (hview : SameView store next) : SameBlocks store next :=
  .of_ledger (hview.read Store.block) (hview.read Store.memPoolStart)
    (hview.read fun view => view.db.rows) (hview.read Store.ledger)

theorem Appended.sameBlocks {start next : Store} {row : LedgerRow} (hlive : Live store)
    (hsame : SameBlocks start store) (happ : store.Appended row next) : SameBlocks start next :=
  ⟨happ.block_eq.trans hsame.block, (hlive.append_memPoolStart happ).trans hsame.start,
    (congrArg PermissionDB.rows happ.db_eq).trans hsame.rows,
    by rw [happ.ledger_eq]; exact hsame.recounted⟩

theorem CheckPointed.acceptStep_sameBlocks {start : Store} (hpoint : CheckPointed store)
    (hsame : SameBlocks start store) (step : AcceptStep) :
    SameBlocks start (store.acceptStep params step) := by
  cases step with
  | call call =>
    have hboth : CheckPointed (store.call params call)
        ∧ SameBlocks start (store.call params call) :=
      call_induct params call
        (motive := fun next => CheckPointed next ∧ SameBlocks start next)
        (fun _ _ _ h happ => ⟨h.1.append happ, happ.sameBlocks h.1.live h.2⟩) ⟨hpoint, hsame⟩
    exact hboth.2
  | checkPoint => exact ⟨hsame.block, hsame.start, hsame.rows, hsame.recounted⟩
  | rollBack =>
    exact ⟨hsame.block, hpoint.rollBackToCheckPoint_start.trans hsame.start, hsame.rows,
      hsame.recounted⟩

theorem Live.accept_sameBlocks (hlive : Live store) (steps : List AcceptStep) :
    SameBlocks store (store.accept params steps) := by
  have hsteps : ∀ (steps : List AcceptStep) (current : Store), CheckPointed current →
      SameBlocks store current →
      SameBlocks store (steps.foldl (Store.acceptStep params) current) := by
    intro steps
    induction steps with
    | nil => exact fun _ _ hsame => hsame
    | cons step steps ih =>
      exact fun current hpoint hsame =>
        ih _ (hpoint.acceptStep params step) (hpoint.acceptStep_sameBlocks hsame step)
  exact hsteps steps _ hlive.setCheckPoint (.of_ledger rfl rfl rfl rfl)

/-- Every operation but a commit and a rollback leaves the blocks alone. -/
theorem Live.apply_sameBlocks (hlive : Live store) {op : Op} (hop : store.Allowed op)
    (hcommit : ∀ miner hash, op ≠ .commit miner hash)
    (hrollBack : ∀ height, op ≠ .rollBack height) : SameBlocks store (store.apply params op) := by
  cases op with
  | call call =>
    have hboth : Live (store.call params call) ∧ SameBlocks store (store.call params call) :=
      call_induct params call (motive := fun next => Live next ∧ SameBlocks store next)
        (fun _ _ _ h happ => ⟨h.1.append happ, happ.sameBlocks h.1 h.2⟩)
        ⟨hlive, .of_ledger rfl rfl rfl rfl⟩
    exact hboth.2
  | accept steps => exact hlive.accept_sameBlocks steps
  | clearMemPool =>
    obtain ⟨minerCount, hclear⟩ := hlive.clearMemPool_eq
    show SameBlocks store store.clearMemPool
    rw [hclear]
    exact .of_ledger rfl rfl rfl rfl
  | checkBlock => exact hlive.checkBlock_spec.1.sameBlocks
  | commit miner hash => exact absurd rfl (hcommit miner hash)
  | rollBack height => exact absurd rfl (hrollBack height)
  | verifyFork height steps => exact (hlive.verifyFork_spec params hop steps).1.sameBlocks
  | restart =>
    have hopened := initializeFrom_committed hlive.files
    refine ⟨hopened.block, ?_, congrArg PermissionDB.rows hopened.db, hopened.recounted⟩
    exact (memPoolStart_of_empty hopened.atRest.memPool).trans hopened.row

/-- The flag that the miner's last row carries over is another one. -/
theorem blockFlags_governance (store : Store) (miner : Hash160) :
    store.blockFlags miner &&& MC_PFB_GOVERNANCE_CHANGE ≠ 0 ↔
      store.memPool.any store.isGovernanceChange = true := by
  have hdisjoint : ∀ flags rest : BitVec 32,
      (flags &&& MC_PFB_MINED_BEFORE ||| rest) &&& MC_PFB_GOVERNANCE_CHANGE =
        rest &&& MC_PFB_GOVERNANCE_CHANGE := by
    intro flags rest
    have hmasks : MC_PFB_MINED_BEFORE &&& MC_PFB_GOVERNANCE_CHANGE = 0 := by decide
    calc
      (flags &&& MC_PFB_MINED_BEFORE ||| rest) &&& MC_PFB_GOVERNANCE_CHANGE
          = flags &&& (MC_PFB_MINED_BEFORE &&& MC_PFB_GOVERNANCE_CHANGE)
            ||| rest &&& MC_PFB_GOVERNANCE_CHANGE := by
        ext i hi
        simp only [BitVec.getElem_and, BitVec.getElem_or]
        cases flags[i] <;> cases rest[i] <;> simp
      _ = rest &&& MC_PFB_GOVERNANCE_CHANGE := by
        rw [hmasks]
        simp
  unfold blockFlags calculateBlockFlags
  rw [hdisjoint]
  by_cases hany : store.memPool.any store.isGovernanceChange = true
  · rw [if_pos hany]
    exact iff_of_true (by decide) hany
  rw [if_neg hany]
  exact iff_of_false (by decide) hany

variable {chain : List CommittedBlock} {longest : ℕ}

theorem ChainInv.nextBlock (hinv : ChainInv store chain longest) :
    store.nextBlock = chain.length := by
  have hlength := hinv.length
  unfold Store.nextBlock
  omega

theorem ChainInv.blockEnd_last (hinv : ChainInv store chain longest) (hpos : 0 < chain.length) :
    BlockEnd store.ledger.getRow store.memPoolStart (chain.length - 1) store.memPoolStart := by
  have hlength := hinv.length
  have hbase : store.memPoolStart ≠ 1 := by
    intro hone
    obtain ⟨last, hend⟩ := hinv.live.files.log.ends 0 (by omega)
    have htwo := hend.two_lt
    have hle := hend.le_base
    omega
  have hend := (hinv.live.files.log.blockEnd_base hbase).2
  rwa [show store.block.toNat = chain.length - 1 by omega] at hend

theorem ChainInv.chainLog_stamped (hinv : ChainInv store chain longest) (miner : Hash160)
    (hash : Hash256) : ChainLog (stampedRow (store.addBlockRows miner hash)) (store.row + 2)
      (chain ++ [⟨miner, hash, store.memPool.any store.isGovernanceChange⟩]) := by
  have hlive := hinv.live
  have hfilled := hlive.filled miner hash
  have hend := hlive.pool.start_add_length
  have hlength := hinv.length
  have hnext := hinv.nextBlock
  have hnewEnd := hlive.blockEnd_new miner hash
  have hold : ∀ i, i < store.memPoolStart →
      stampedRow (store.addBlockRows miner hash) i = store.ledger.getRow i := by
    intro i hlt
    rw [stampedRow_of_lt (by show i < store.row + 2 - 2; omega), hlive.logRow_below miner hash hlt]
  have hindexRow : stampedRow (store.addBlockRows miner hash) (store.row + 1) =
      (store.indexRow miner hash).setCounts
        (blockCount (store.addBlockRows miner hash) MC_PTP_ADMIN)
        (blockCount (store.addBlockRows miner hash) MC_PTP_MINE) := by
    rw [stampedRow, if_pos (by show store.row + 2 - 2 ≤ store.row + 1; omega), hfilled.indexRow]
  refine ⟨fun height block hblock => ?_, fun height last last' hlt hlow hhigh => ?_,
    fun last hfirst => ?_, fun i hi hlt htype => ?_⟩
  · by_cases hnew : height < chain.length
    · rw [List.getElem?_append_left hnew] at hblock
      obtain ⟨last, hrecorded⟩ := hinv.log.recorded height block hblock
      have htwo := hrecorded.isEnd.two_lt
      have hle := hrecorded.isEnd.le_base
      refine ⟨last, hlive.blockEnd_stamped miner hash hrecorded.isEnd (by omega), ?_, ?_, ?_⟩
      · rw [hold _ (by omega)]
        exact hrecorded.miner
      · rw [hold _ (by omega)]
        exact hrecorded.hash
      rw [hold _ (by omega)]
      exact hrecorded.governance
    have hheight : height = chain.length := by
      have hlt := (List.getElem?_eq_some_iff.mp hblock).1
      rw [List.length_append, List.length_singleton] at hlt
      omega
    subst hheight
    rw [List.getElem?_concat_length, Option.some_inj] at hblock
    subst hblock
    rw [hnext] at hnewEnd
    refine ⟨store.row + 2, hnewEnd, ?_, ?_, ?_⟩
    · rw [stampedRow_key, Nat.add_sub_cancel, hfilled.minerRow]
      rfl
    · rw [show store.row + 2 - 1 = store.row + 1 from rfl, hindexRow]
      exact LedgerRow.commitHash_setCommitHash (LedgerRow.zero (blockIndexKey store.nextBlock)) hash
    rw [show store.row + 2 - 1 = store.row + 1 from rfl, hindexRow]
    exact store.blockFlags_governance miner
  · rw [List.length_append, List.length_singleton] at hlt
    obtain ⟨low, hlowEnd⟩ := hlive.files.log.ends height (by omega)
    have hlowEq : last = low := hlow.unique (hlive.blockEnd_stamped miner hash hlowEnd (by omega))
    by_cases hnew : height + 1 < chain.length
    · obtain ⟨high, hhighEnd⟩ := hlive.files.log.ends (height + 1) (by omega)
      have hhighEq : last' = high :=
        hhigh.unique (hlive.blockEnd_stamped miner hash hhighEnd (by omega))
      have htwo := hhighEnd.two_lt
      have hle := hhighEnd.le_base
      rw [hhighEq, hlowEq, prevAt, hold _ (by omega)]
      exact hinv.log.linked height low high hnew hlowEnd hhighEnd
    -- the new block-index row links to the end of the log
    have hheight : height + 1 = chain.length := by omega
    rw [hheight, ← hnext] at hhigh
    have hlast := hinv.blockEnd_last (by omega)
    rw [← hheight] at hlast
    rw [hhigh.unique hnewEnd, hlowEq, hlowEnd.unique hlast, prevAt,
      show store.row + 2 - 1 = store.row + 1 from rfl, hindexRow]
    rfl
  · by_cases hempty : chain.length = 0
    · have hbase : store.memPoolStart = 1 := by
        by_contra hne
        have hnonneg := (hlive.files.log.blockEnd_base hne).1
        omega
      rw [hnext, hempty] at hnewEnd
      rw [hfirst.unique hnewEnd, prevAt, show store.row + 2 - 1 = store.row + 1 from rfl, hindexRow]
      show store.memPoolStart - 1 = 0
      omega
    obtain ⟨low, hlowEnd⟩ := hlive.files.log.ends 0 (by omega)
    have htwo := hlowEnd.two_lt
    have hle := hlowEnd.le_base
    rw [hfirst.unique (hlive.blockEnd_stamped miner hash hlowEnd (by omega)), prevAt,
      hold _ (by omega)]
    exact hinv.log.first low hlowEnd
  rw [stampedRow_key] at htype
  rw [stampedRow_blockReceived]
  by_cases hbelow : i < store.memPoolStart
  · rw [hlive.logRow_below miner hash hbelow] at htype ⊢
    have hreceived := hlive.files.log.received_le i hi hbelow
    exact hlive.blockEnd_stamped miner hash (hinv.log.indexRow i hi hbelow htype) hreceived
  have hlast : i = store.row + 1 := by
    by_contra hne
    by_cases hminer : i = store.row
    · rw [hminer, hfilled.minerRow] at htype
      exact absurd htype (by
        show MC_PTP_BLOCK_MINER ≠ MC_PTP_BLOCK_INDEX
        decide)
    have hpool : i - store.memPoolStart < store.memPool.length := by omega
    have hrow := logRow_memPool hpool
    rw [Nat.add_sub_cancel' (not_lt.mp hbelow)] at hrow
    have hgrant := hlive.grantType _ (List.getElem_mem hpool)
    rw [← hrow] at hgrant
    rw [hfilled.old i (by omega)] at htype
    simp only [isGrantType, decide_eq_true_eq] at hgrant
    exact hgrant.2 htype
  subst hlast
  rw [hfilled.indexRow]
  exact hnewEnd

theorem ChainInv.commit (hinv : ChainInv store chain longest) (miner : Hash160)
    (hash : Hash256) (hbound : store.block + 1 < 2 ^ 31) : ChainInv (store.commit params miner hash)
      (chain ++ [⟨miner, hash, store.memPool.any store.isGovernanceChange⟩])
      (max longest (chain.length + 1)) := by
  have hlive := hinv.live
  have hlength := hinv.length
  have hlongest := hinv.longest_le
  have hnext := hinv.nextBlock
  have hstamped := hlive.blockStamped miner hash
  have hrest := hlive.commit_atRest params miner hash hbound
  obtain ⟨hblock, hrow⟩ := hlive.commit_block params miner hash
  obtain ⟨blockMiners, hcommit⟩ := store.commit_eq params miner hash
  have hrows : (store.commit params miner hash).db.rows =
      (store.commitCounts miner hash).db.rows := by rw [hcommit]
  have hget : ∀ i, i < store.row + 2 → (store.commit params miner hash).ledger.getRow i =
      stampedRow (store.addBlockRows miner hash) i := by
    intro i hlt
    rw [hcommit]
    exact (hstamped.getRow i).trans (if_pos hlt)
  refine ⟨hrest.live, ?_, ?_, ?_, ?_, ?_, ?_⟩
  · rw [List.length_append, List.length_singleton]
    omega
  · rw [List.length_append]
    exact le_max_right _ _
  · omega
  · rw [memPoolStart_of_empty hrest.memPool, hrow]
    exact (hinv.chainLog_stamped miner hash).recount fun i _ hlt => .inl (hget i hlt)
  · intro height hpos hge hlt
    rw [List.length_append, List.length_singleton] at hge
    rw [hrows, hlive.lookup_otherIndex miner hash hbound hstamped (by omega) (by omega)]
    exact hinv.keys.stale height hpos (by omega) (by omega)
  intro height hheight hover
  rw [List.length_append, List.length_singleton] at hover
  rw [hrows, hlive.lookup_otherIndex miner hash hbound hstamped hheight (by omega)]
  exact hinv.keys.absent height hheight (.inl (by omega))

theorem lookup_undoWrites_other {height : ℤ} {key : PermKey} : ∀ (n : ℕ) (db : PermissionDB),
      (∀ i, 0 < i → i ≤ n → height < ((store.ledger.getRow i).blockReceived : ℤ) →
        (store.ledger.getRow i).key ≠ key) →
      (db.commit (store.undoWrites height n)).rows.lookup key = db.rows.lookup key := by
  intro n
  induction n with
  | zero => exact fun db _ => rfl
  | succ n ih =>
    intro db hother
    unfold undoWrites
    dsimp only
    split
    next hover =>
      rw [PermissionDB.commit_cons, ih _ fun i hi hle => hother i hi (by omega)]
      exact lookup_undoWrite db (hother (n + 1) (by omega) le_rfl hover)
    · rfl

/-- A key with one row above the height is put back to the row that one links
to. -/
theorem lookup_undoWrites_one {height : ℤ} {i : ℕ} (hi : 0 < i) :
    ∀ (n : ℕ) (db : PermissionDB), i ≤ n →
      (∀ j, i ≤ j → j ≤ n → height < ((store.ledger.getRow j).blockReceived : ℤ)) →
      (∀ j, 0 < j → j ≤ n → (store.ledger.getRow j).key = (store.ledger.getRow i).key → j = i) →
      (db.commit (store.undoWrites height n)).rows.lookup (store.ledger.getRow i).key =
        if (store.ledger.getRow i).prevRow = 0 then none
        else some ((store.ledger.getRow (store.ledger.getRow i).prevRow).toDBRow
          (store.ledger.getRow i).prevRow) := by
  intro n
  induction n with
  | zero => exact fun db hle => absurd hle (by omega)
  | succ n ih =>
    intro db hle hover hone
    rw [undoWrites, if_pos (hover (n + 1) hle le_rfl), PermissionDB.commit_cons]
    by_cases hlast : i = n + 1
    · subst hlast
      rw [lookup_undoWrites_other n _ fun j hj hle' _ hkey => by
        have := hone j hj (by omega) hkey
        omega]
      unfold undoWrite
      by_cases hprev : (store.ledger.getRow (n + 1)).prevRow = 0
      · rw [if_neg (not_not.mpr hprev), if_pos hprev]
        exact Finmap.lookup_erase _ _
      rw [if_pos hprev, if_neg hprev]
      exact Finmap.lookup_insert _
    exact ih _ (by omega) (fun j hge hle' => hover j hge (by omega))
      fun j hj hle' => hone j hj (by omega)

variable {row : ℕ → LedgerRow}

theorem Cut.blockEnd {base cut low last : ℕ} {height : ℤ}
    (hcut : Cut row base height cut) (hend : BlockEnd row base low last)
    (hlow : (low : ℤ) ≤ height) : BlockEnd row cut low last := by
  have hpos := hcut.pos
  have hcutLe := hcut.le_base
  have hbase := hend.le_base
  have hlast : last ≤ cut := by
    by_contra hlt
    have hreceived := hend.under cut hpos (by omega)
    have habove := hcut.beyond cut le_rfl (by omega)
    omega
  exact hend.congr hlast (fun _ _ _ => rfl) fun i hi hlt => hend.beyond i hi (by omega)

theorem Cut.blockEnd_base {base cut low last : ℕ} {height : ℤ}
    (hcut : Cut row base height cut) (hend : BlockEnd row cut low last)
    (hlow : (low : ℤ) ≤ height) : BlockEnd row base low last := by
  have hcutLe := hcut.le_base
  have hle := hend.le_base
  refine hend.congr (by omega) (fun _ _ _ => rfl) fun i hi hlt => ?_
  by_cases hin : i < cut
  · exact hend.beyond i hi hin
  have habove := hcut.beyond i (not_lt.mp hin) hlt
  omega

theorem ChainLog.take {base cut : ℕ} {height : ℤ}
    (hlog : ChainLog row base chain) (hcut : Cut row base height cut) (hge : -1 ≤ height) :
    ChainLog row cut (chain.take (height + 1).toNat) := by
  have hcutLe := hcut.le_base
  refine ⟨fun low block hblock => ?_, fun low last last' hlt hlow hhigh => ?_,
    fun last hfirst => ?_, fun i hi hlt htype => ?_⟩
  · have hlow : low < (height + 1).toNat := by
      by_contra hnot
      rw [List.getElem?_take_eq_none (by omega)] at hblock
      cases hblock
    rw [List.getElem?_take_of_lt hlow] at hblock
    obtain ⟨last, hrecorded⟩ := hlog.recorded low block hblock
    exact ⟨last, hcut.blockEnd hrecorded.isEnd (by omega), hrecorded.miner, hrecorded.hash,
      hrecorded.governance⟩
  · rw [List.length_take] at hlt
    exact hlog.linked low last last' (by omega) (hcut.blockEnd_base hlow (by omega))
      (hcut.blockEnd_base hhigh (by omega))
  · have htwo := hfirst.two_lt
    have hle := hfirst.le_base
    have hunder := hcut.under 1 (by omega) (by omega)
    exact hlog.first last (hcut.blockEnd_base hfirst (by omega))
  exact hcut.blockEnd (hlog.indexRow i hi (by omega) htype) (hcut.under i hi hlt)

/-- The one ledger row of a block-index key. -/
theorem ChainInv.index_unique (hinv : ChainInv store chain longest) {height last i : ℕ}
    (hend : BlockEnd store.ledger.getRow store.memPoolStart height last)
    (hheight : height < 2 ^ 32) (hi : 0 < i) (hlt : i < store.memPoolStart)
    (hkey : (store.ledger.getRow i).key = blockIndexKey height) : i = last - 1 := by
  have hlog := hinv.live.files.log
  have hbound := hinv.live.files.block_lt
  have htype : (store.ledger.getRow i).key.type = MC_PTP_BLOCK_INDEX := by
    rw [hkey]
    rfl
  have hreceived := hlog.received_le i hi hlt
  have hindexKey := hlog.indexKey i hi hlt htype
  rw [hkey] at hindexKey
  have hheights := blockIndexKey_inj hheight (by omega) hindexKey
  have hrow := hinv.log.indexRow i hi hlt htype
  rw [← hheights] at hrow
  have hunique := hrow.unique hend
  omega

theorem ChainInv.index_key_ne (hinv : ChainInv store chain longest) {height i : ℕ}
    (hheight : height < 2 ^ 32) (hover : chain.length ≤ height) (hi : 0 < i)
    (hlt : i < store.memPoolStart) : (store.ledger.getRow i).key ≠ blockIndexKey height := by
  intro hkey
  have hlog := hinv.live.files.log
  have hlength := hinv.length
  have hreceived := hlog.received_le i hi hlt
  have hindexKey := hlog.indexKey i hi hlt (by rw [hkey]; rfl)
  rw [hkey] at hindexKey
  have hheights := blockIndexKey_inj hheight (by omega) hindexKey
  omega

/-- The database row of a block-index key after a rollback below its block. -/
theorem ChainInv.lookup_rolledBack (hinv : ChainInv store chain longest) (height : ℤ)
    {low last : ℕ} (hend : BlockEnd store.ledger.getRow store.memPoolStart low last)
    (hlow : low < chain.length) (hover : height < low) :
    (store.db.commit (store.undoWrites height (store.memPoolStart - 1))).rows.lookup
        (blockIndexKey low) =
      if prevAt store.ledger.getRow (last - 1) = 0 then none
      else some ((store.ledger.getRow (prevAt store.ledger.getRow (last - 1))).toDBRow
        (prevAt store.ledger.getRow (last - 1))) := by
  have htwo := hend.two_lt
  have hle := hend.le_base
  have hlongest := hinv.le_longest
  have hbound := hinv.longest_le
  have hreceived : (store.ledger.getRow (last - 1)).blockReceived = low := by
    have hunder := hend.under (last - 1) (by omega) (by omega)
    have hindexKey := hinv.live.files.log.indexKey (last - 1) (by omega) (by omega)
      (by rw [hend.index]; rfl)
    rw [hend.index] at hindexKey
    exact (blockIndexKey_inj (by omega) (by omega) hindexKey).symm
  have hone := @lookup_undoWrites_one store height (last - 1) (by omega)
    (store.memPoolStart - 1) store.db (by omega)
    (fun j hge hlt => by
      have hmono := hinv.live.files.log.received_mono (last - 1) j (by omega) hge (by omega)
      omega)
    fun j hj hlt hkey =>
      hinv.index_unique hend (by omega) hj (by omega) (hkey.trans hend.index)
  rw [hend.index] at hone
  exact hone

theorem ChainInv.rollBack (hinv : ChainInv store chain longest) {height : ℤ}
    (hge : -1 ≤ height) (hle : height ≤ store.block) :
    ChainInv (store.rollBack height) (chain.take (height + 1).toNat) longest := by
  have hlive := hinv.live
  have hlength := hinv.length
  have hlongest := hinv.le_longest
  have hbound := hinv.longest_le
  obtain ⟨cut, hrolled⟩ := hlive.rollBack_spec hge hle
  have htake : (chain.take (height + 1).toNat).length = (height + 1).toNat := by
    rw [List.length_take]
    omega
  have hrows : (store.rollBack height).db.rows =
      (store.db.commit (store.undoWrites height (store.memPoolStart - 1))).rows := by
    rw [hrolled.db, PermissionDB.commit_append]
    rfl
  have hkept : ∀ low < 2 ^ 32, chain.length ≤ low →
      (store.rollBack height).db.rows.lookup (blockIndexKey low) =
        store.db.rows.lookup (blockIndexKey low) := by
    intro low hlow hover
    rw [hrows]
    exact lookup_undoWrites_other _ _ fun i hi hlt _ =>
      hinv.index_key_ne hlow hover hi (by omega)
  refine ⟨hrolled.atRest.live, ?_, ?_, hbound, ?_, ?_, ?_⟩
  · rw [hrolled.block]
    omega
  · omega
  · rw [memPoolStart_of_empty hrolled.atRest.memPool, hrolled.row, hrolled.getRow]
    exact hinv.log.take hrolled.isCut hge
  · intro low hpos hover hlt
    by_cases hold : chain.length ≤ low
    · rw [hkept low (by omega) hold]
      exact hinv.keys.stale low hpos hold hlt
    -- the key is put back to the block-index row of the block before
    obtain ⟨last, hend⟩ := hlive.files.log.ends low (by omega)
    obtain ⟨before, hbefore⟩ := hlive.files.log.ends (low - 1) (by omega)
    have htwo := hbefore.two_lt
    have hprev : prevAt store.ledger.getRow (last - 1) = before - 1 := by
      refine hinv.log.linked (low - 1) before last (by omega) hbefore ?_
      rwa [Nat.sub_add_cancel hpos]
    have hlookup := hinv.lookup_rolledBack height hend (by omega) (by omega)
    rw [hprev, if_neg (by omega)] at hlookup
    rw [hrows]
    refine ⟨_, hlookup, ?_⟩
    show before - 1 ≠ 0
    omega
  intro low hlow hover
  by_cases hold : chain.length ≤ low
  · rw [hkept low hlow hold]
    exact hinv.keys.absent low hlow (by omega)
  -- the first block-index row links to no other
  have hzero : low = 0 := by omega
  subst hzero
  obtain ⟨last, hend⟩ := hlive.files.log.ends 0 (by omega)
  have hlookup := hinv.lookup_rolledBack height hend (by omega) (by omega)
  rw [hinv.log.first last hend] at hlookup
  rw [hrows]
  exact hlookup

theorem newStore_chainInv : ChainInv newStore [] 0 := by
  refine ⟨newStore_atRest.live, rfl, le_rfl, by omega, ⟨?_, ?_, ?_, ?_⟩, ⟨?_, ?_⟩⟩
  · exact fun height block hblock => absurd hblock (by simp)
  · exact fun height last last' hlt => absurd hlt (by simp)
  · intro last hend
    have htwo := hend.two_lt
    have hle : last ≤ 1 := hend.le_base
    omega
  · exact fun i hi hlt => absurd hlt (by show ¬ i < 1; omega)
  · exact fun height _ _ hlt => absurd hlt (by omega)
  exact fun height _ _ => Finmap.lookup_empty _

/-- Every run keeps its chain in the store. -/
theorem ChainRun.inv (hrun : ChainRun params store chain longest) :
    ChainInv store chain longest := by
  induction hrun with
  | start =>
    exact newStore_chainInv
  | @apply store chain longest op hrun hop ih =>
    by_cases hcommit : ∃ miner hash, op = .commit miner hash
    · obtain ⟨miner, hash, rfl⟩ := hcommit
      show ChainInv (store.commit params miner hash) _ (max longest (chain ++ [_]).length)
      rw [List.length_append]
      exact ih.commit miner hash hop
    by_cases hrollBack : ∃ height, op = .rollBack height
    · obtain ⟨height, rfl⟩ := hrollBack
      have hnext := ih.rollBack hop.1 hop.2
      have hle : (chain.take (height + 1).toNat).length ≤ longest :=
        (List.length_take_le' _ _).trans ih.le_longest
      rw [← max_eq_left hle] at hnext
      exact hnext
    have hsame : SameBlocks store (store.apply params op) := ih.live.apply_sameBlocks hop
      (fun miner hash heq => hcommit ⟨miner, hash, heq⟩)
      fun height heq => hrollBack ⟨height, heq⟩
    have hchain : store.chainAfter chain op = chain := by
      cases op with
      | commit miner hash => exact absurd ⟨miner, hash, rfl⟩ hcommit
      | rollBack height => exact absurd ⟨height, rfl⟩ hrollBack
      | _ => rfl
    rw [hchain, max_eq_left ih.le_longest]
    exact hsame.inv (ih.live.apply params hop) ih

end Store

end Amberchain.Permission
