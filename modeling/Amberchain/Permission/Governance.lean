import Amberchain.Permission.BlockLookups

/-!
# Governance changes are flagged

A block whose grants change who may admin or mine at some height from its own on
carries a flag in its block-index row, and walking the block-index rows down from
a height finds the highest flagged block.
-/

namespace Amberchain.Permission

open RowChain

namespace Store

def Waiting (store : Store) : Prop :=
  ∀ i, store.memPoolStart ≤ i → i < store.row → (store.logRow i).consensus = 0 →
    (store.logRow i).blockFrom = (newest store.logRow (store.logRow i).key i).blockFrom ∧
    (store.logRow i).blockTo = (newest store.logRow (store.logRow i).key i).blockTo

variable {params : ChainParams} {store next : Store}

theorem waiting_of_empty (hempty : store.memPool = []) : Waiting store := by
  intro i hge hlt
  rw [memPoolStart_of_empty hempty] at hge
  omega

theorem Waiting.add {row : LedgerRow} (hwaiting : Waiting store) (hlive : Live store)
    (hadds : store.Adds row next) : Waiting next := by
  have htype := hadds.appended.type_ne
  have hext := hadds.appended.extends hlive.pool.toPoolChain (hlive.showsBelow htype)
  have hold := fun i hlt => hext.logRow_of_lt_row hlive.pool.toPoolChain (i := i) hlt
  have hnew := hext.logRow_row hlive.pool.toPoolChain
  have hbefore : ∀ (key : PermKey) (i : ℕ), i ≤ store.row →
      newest next.logRow key i = newest store.logRow key i :=
    fun key i hle => newest_congr key fun j _ hlt => hold j (by omega)
  intro i hge hlt hwait
  rw [hext.memPoolStart_eq] at hge
  rw [hext.nextRow] at hlt
  by_cases hlast : i = store.row
  · subst hlast
    rw [hnew] at hwait ⊢
    have hread := hlive.pool.rowAt htype (hlive.showsBelow htype)
    obtain ⟨hfrom, hto⟩ := hadds.waits hwait
    rw [hbefore _ _ le_rfl, hfrom, hto, hread.blockFrom, hread.blockTo]
    exact ⟨rfl, rfl⟩
  rw [hold i (by omega)] at hwait ⊢
  rw [hbefore _ i (by omega)]
  exact hwaiting i hge (by omega) hwait

theorem Waiting.call (hwaiting : Waiting store) (hlive : Live store) (call : Call) :
    Waiting (store.call params call) := by
  have hboth : Live (store.call params call) ∧ Waiting (store.call params call) :=
    call_adds params call (motive := fun next => Live next ∧ Waiting next)
      (fun _ _ _ h hadds _ => ⟨h.1.append hadds.appended, h.2.add h.1 hadds⟩) ⟨hlive, hwaiting⟩
  exact hboth.2

theorem Waiting.rollBackToCheckPoint (hwaiting : Waiting store) (hpoint : CheckPointed store) :
    Waiting store.rollBackToCheckPoint := by
  have hsize := hpoint.size_le
  have hrow := hpoint.row
  have hend := hpoint.live.pool.start_add_length
  intro i hge hlt hwait
  have hlt : i < store.checkPointRow := hlt
  rw [hpoint.rollBackToCheckPoint_start] at hge
  rw [← hpoint.rollBackToCheckPoint_logRow hlt] at hwait ⊢
  have hnewest : newest store.logRow (store.logRow i).key i =
      newest store.rollBackToCheckPoint.logRow (store.logRow i).key i :=
    newest_congr _ fun j _ hj =>
      hpoint.rollBackToCheckPoint_logRow (show j < store.checkPointRow by omega)
  rw [← hnewest]
  exact hwaiting i hge (by omega) hwait

theorem CheckPointed.waiting_acceptStep (hpoint : CheckPointed store)
    (hwaiting : Waiting store) (step : AcceptStep) : Waiting (store.acceptStep params step) := by
  cases step with
  | call call => exact hwaiting.call hpoint.live call
  | checkPoint => exact hwaiting
  | rollBack => exact hwaiting.rollBackToCheckPoint hpoint

theorem Waiting.accept (hwaiting : Waiting store) (hlive : Live store)
    (steps : List AcceptStep) : Waiting (store.accept params steps) := by
  have hsteps : ∀ (steps : List AcceptStep) (current : Store), CheckPointed current →
      Waiting current → Waiting (steps.foldl (Store.acceptStep params) current) := by
    intro steps
    induction steps with
    | nil => exact fun _ _ hcurrent => hcurrent
    | cons step steps ih =>
      exact fun current hpoint hcurrent =>
        ih _ (hpoint.acceptStep params step) (hpoint.waiting_acceptStep hcurrent step)
  exact hsteps steps _ hlive.setCheckPoint hwaiting

theorem SameView.waiting (hview : SameView store next) (hwaiting : Waiting store) :
    Waiting next := by
  have hlog : next.logRow = store.logRow := hview.read Store.logRow
  have hstart : next.memPoolStart = store.memPoolStart := hview.read Store.memPoolStart
  have hrow : next.row = store.row := hview.read Store.row
  unfold Waiting
  rw [hlog, hstart, hrow]
  exact hwaiting

/-- In every reachable store the rows without consensus change no range. -/
theorem Reachable.waiting (hreach : Reachable params store) : Waiting store := by
  induction hreach with
  | start =>
    exact waiting_of_empty rfl
  | @apply store op hstore hop ih =>
    have hlive := hstore.live
    cases op with
    | call call => exact ih.call hlive call
    | accept steps => exact ih.accept hlive steps
    | clearMemPool => exact waiting_of_empty hlive.clearMemPool_atRest.memPool
    | checkBlock => exact hlive.checkBlock_spec.1.waiting ih
    | commit miner hash =>
      exact waiting_of_empty (hlive.commit_atRest params miner hash hop).memPool
    | rollBack height =>
      obtain ⟨_, hrolled⟩ := hlive.rollBack_spec hop.1 hop.2
      exact waiting_of_empty hrolled.atRest.memPool
    | verifyFork height steps => exact (hlive.verifyFork_spec params hop steps).1.waiting ih
    | restart => exact waiting_of_empty (initializeFrom_committed hlive.files).atRest.memPool

def SameRange (row other : LedgerRow) : Prop :=
  row.blockFrom = other.blockFrom ∧ row.blockTo = other.blockTo

theorem SameRange.inRange {row other : LedgerRow} (hsame : SameRange row other)
    (height : ℕ) : inRange row height = inRange other height := by
  unfold Store.inRange
  rw [hsame.1, hsame.2]

/-- Behind the committed rows a key shows the range of its last mempool row in
consensus, if it has one. -/
theorem Waiting.newest_range (hwaiting : Waiting store) (hlive : Live store) (key : PermKey) :
    SameRange (newest store.logRow key store.row) (newest store.logRow key store.memPoolStart) ∨
      ∃ i, store.memPoolStart ≤ i ∧ i < store.row ∧ (store.logRow i).key = key ∧
        (store.logRow i).consensus ≠ 0 ∧
        SameRange (newest store.logRow key store.row) (store.logRow i) ∧
        ∀ j, i < j → j < store.row → (store.logRow j).key = key →
          (store.logRow j).consensus = 0 := by
  have hend := hlive.pool.start_add_length
  have hpos := hlive.pool.start_pos
  have hgrow : ∀ count, store.memPoolStart + count ≤ store.row →
      SameRange (newest store.logRow key (store.memPoolStart + count))
          (newest store.logRow key store.memPoolStart) ∨
        ∃ i, store.memPoolStart ≤ i ∧ i < store.memPoolStart + count ∧
          (store.logRow i).key = key ∧ (store.logRow i).consensus ≠ 0 ∧
          SameRange (newest store.logRow key (store.memPoolStart + count)) (store.logRow i) ∧
          ∀ j, i < j → j < store.memPoolStart + count → (store.logRow j).key = key →
            (store.logRow j).consensus = 0 := by
    intro count
    induction count with
    | zero => exact fun _ => .inl ⟨rfl, rfl⟩
    | succ count ih =>
      intro hle
      have hprev := ih (by omega)
      rw [← Nat.add_assoc]
      by_cases hkey : (store.logRow (store.memPoolStart + count)).key = key
      · have hnewest : newest store.logRow key (store.memPoolStart + count + 1) =
            store.logRow (store.memPoolStart + count) := by
          have hlast : newestRow store.logRow key (store.memPoolStart + count + 1) =
              store.memPoolStart + count :=
            lastRow_succ_of_eq (n := store.memPoolStart + count) (by omega) hkey
          rw [newest, hlast, if_neg (by omega)]
        rw [hnewest]
        by_cases hwait : (store.logRow (store.memPoolStart + count)).consensus = 0
        · -- a waiting row repeats the range before it
          have hrange := hwaiting _ (Nat.le_add_right _ _) (by omega) hwait
          rw [hkey] at hrange
          rcases hprev with hsame | ⟨i, hge, hlt, hkeyi, hconsensus, hsame, hlater⟩
          · exact .inl ⟨hrange.1.trans hsame.1, hrange.2.trans hsame.2⟩
          refine .inr ⟨i, hge, by omega, hkeyi, hconsensus,
            ⟨hrange.1.trans hsame.1, hrange.2.trans hsame.2⟩, fun j hij hj hkeyj => ?_⟩
          by_cases hjlast : j = store.memPoolStart + count
          · rw [hjlast]
            exact hwait
          · exact hlater j hij (by omega) hkeyj
        exact .inr ⟨_, Nat.le_add_right _ _, by omega, hkey, hwait, ⟨rfl, rfl⟩,
          fun j hij hj => by omega⟩
      have hnewest : newest store.logRow key (store.memPoolStart + count + 1) =
          newest store.logRow key (store.memPoolStart + count) := by
        have hlast : newestRow store.logRow key (store.memPoolStart + count + 1) =
            newestRow store.logRow key (store.memPoolStart + count) :=
          lastRow_succ_of_ne (n := store.memPoolStart + count) hkey
        rw [newest, newest, hlast]
      rw [hnewest]
      rcases hprev with hsame | ⟨i, hge, hlt, hkeyi, hconsensus, hsame, hlater⟩
      · exact .inl hsame
      refine .inr ⟨i, hge, by omega, hkeyi, hconsensus, hsame,
        fun j hij hj hkeyj => ?_⟩
      by_cases hjlast : j = store.memPoolStart + count
      · exact absurd (hjlast ▸ hkeyj) hkey
      · exact hlater j hij (by omega) hkeyj
  have hall := hgrow store.memPool.length (by omega)
  rwa [hend] at hall

/-- The loop of `CalculateBlockFlags` ends at a mempool row of the key that is
not older. -/
theorem Live.followToConsensus_spec (hlive : Live store) {key : PermKey}
    (htype : key.type ≠ MC_PTP_BLOCK_INDEX) :
    ∀ (fuel i : ℕ), store.memPoolStart ≤ i → i < store.row → (store.logRow i).key = key →
      ∃ j, i ≤ j ∧ j < store.row ∧ (store.logRow j).key = key ∧
        followToConsensus store.memPool fuel (store.logRow i) = store.logRow j := by
  intro fuel
  induction fuel with
  | zero => exact fun i _ hlt hkey => ⟨i, le_rfl, hlt, hkey, rfl⟩
  | succ fuel ih =>
    intro i hge hlt hkey
    unfold followToConsensus
    rw [hkey]
    split
    · exact ⟨i, le_rfl, hlt, hkey, rfl⟩
    next next hseek =>
      rw [hlive.pool.thisRow i hge hlt] at hseek
      obtain ⟨j, hgej, hltj, hrow, hnext, hnewest⟩ := hlive.pool.seekMemPool_some htype hseek
      have hij : i < j := by
        have hpos := hlive.pool.start_pos
        rw [← hnewest]
        exact lastRow_lt (by rw [show lastRow _ _ _ = i from hnewest]; omega)
      have hkeyj : (store.logRow j).key = key := by rw [hrow, hnext]
      split
      · exact ⟨j, hij.le, hltj, hkeyj, hrow.symm⟩
      obtain ⟨last, hle, hltLast, hkeyLast, hfollow⟩ := ih j hgej hltj hkeyj
      rw [hrow] at hfollow
      exact ⟨last, by omega, hltLast, hkeyLast, hfollow⟩

/-- A row in consensus that changes the range of its key somewhere from the next
block on is a governance change, unless a later row has consensus. -/
theorem Live.isGovernanceChange_of_differs (hlive : Live store) {i : ℕ}
    (hge : store.memPoolStart ≤ i) (hlt : i < store.row)
    (hadmin : isAdminMinerKey (store.logRow i).key = true)
    (hconsensus : (store.logRow i).consensus ≠ 0)
    (hlater : ∀ j, i < j → j < store.row → (store.logRow j).key = (store.logRow i).key →
      (store.logRow j).consensus = 0) {height : ℕ} (hheight : store.nextBlock ≤ height)
    (hdiffers : inRange (store.logRow i) height ≠
      inRange (newest store.ledger.getRow (store.logRow i).key store.memPoolStart) height) :
    store.isGovernanceChange (store.logRow i) = true := by
  obtain ⟨hentity, htypes⟩ := of_decide_eq_true hadmin
  have htype : (store.logRow i).key.type ≠ MC_PTP_BLOCK_INDEX := by
    rcases htypes with htype | htype <;> rw [htype] <;> decide
  have hmask : (store.logRow i).key.type &&& (MC_PTP_ADMIN ||| MC_PTP_MINE) ≠ 0 := by
    rcases htypes with htype | htype <;> rw [htype] <;> decide
  obtain ⟨j, hij, hj, hkeyj, hfollow⟩ :=
    hlive.followToConsensus_spec htype store.memPool.length i hge hlt rfl
  have hdecides : ¬ ((store.logRow j).consensus ≠ 0 ∧
      (store.logRow j).thisRow ≠ (store.logRow i).thisRow) := by
    rintro ⟨hreached, hother⟩
    by_cases hsame : j = i
    · exact hother (by rw [hsame])
    · exact hreached (hlater j (by omega) hj hkeyj)
  have hread := permissionRow_committed (hlive.showsBelow htype)
  unfold isGovernanceChange
  rw [hfollow, if_neg (by
    rintro (hzero | hother | hzero)
    · exact hmask hzero
    · exact hother hentity
    · exact hconsensus hzero), if_neg hdecides]
  rw [hread.thisRow, hread.blockFrom, hread.blockTo]
  simp only [inRange, ne_eq, decide_eq_decide] at hdiffers
  by_cases hnone : newestRow store.ledger.getRow (store.logRow i).key store.memPoolStart = 0
  · rw [if_neg (not_not.mpr hnone)]
    simp only [newest, if_pos hnone, LedgerRow.zero] at hdiffers
    simp only [decide_eq_true_eq]
    omega
  rw [if_pos hnone]
  simp only [decide_eq_true_eq]
  omega

/-- Whether an address has a permission of the null entity at a height, by the
rows that `GetPermission` finds. -/
def holdsAt (store : Store) (type : PermType) (address : Hash160) (height : ℕ) : Bool :=
  inRange (store.getPermission ⟨nullEntity, address, type⟩ true).2 height

/-- The block rows are of other keys, so a commit shows what the mempool showed. -/
theorem Live.commit_holdsAt (hlive : Live store) (miner : Hash160) (hash : Hash256)
    (hbound : store.block + 1 < 2 ^ 31) {type : PermType}
    (htype : type = MC_PTP_ADMIN ∨ type = MC_PTP_MINE) (address : Hash160) (height : ℕ) :
    (store.commit params miner hash).holdsAt type address height =
      inRange (newest store.logRow ⟨nullEntity, address, type⟩ store.row) height := by
  have hrest := hlive.commit_atRest params miner hash hbound
  have hfilled := hlive.filled miner hash
  obtain ⟨_, hrow⟩ := hlive.commit_block params miner hash
  obtain ⟨blockMiners, hcommit⟩ := store.commit_eq params miner hash
  have hget : ∀ i, i < store.row + 2 →
      ((store.commit params miner hash).ledger.getRow i).key =
        ((store.addBlockRows miner hash).logRow i).key := by
    intro i hlt
    rw [hcommit, ← stampedRow_key]
    exact congrArg LedgerRow.key (((hlive.blockStamped miner hash).getRow i).trans (if_pos hlt))
  have hindexed : (⟨nullEntity, address, type⟩ : PermKey).type ≠ MC_PTP_BLOCK_INDEX :=
    ne_blockIndex_of_type htype
  have hread := hrest.rowAt hindexed true
  rw [hrow] at hread
  have hminer : keyAt (store.commit params miner hash).ledger.getRow store.row ≠
      ⟨nullEntity, address, type⟩ := by
    rw [keyAt, hget _ (by omega), hfilled.minerRow]
    intro hkey
    have htypes : MC_PTP_BLOCK_MINER = type := congrArg PermKey.type hkey
    rcases htype with rfl | rfl <;> exact absurd htypes (by decide)
  have hindex : keyAt (store.commit params miner hash).ledger.getRow (store.row + 1) ≠
      ⟨nullEntity, address, type⟩ := by
    rw [keyAt, hget _ (by omega), hfilled.indexRow]
    intro hkey
    have htypes : MC_PTP_BLOCK_INDEX = type := congrArg PermKey.type hkey
    rcases htype with rfl | rfl <;> exact absurd htypes (by decide)
  have hnewest : newest (store.commit params miner hash).ledger.getRow
      ⟨nullEntity, address, type⟩ (store.row + 2) =
      newest store.logRow ⟨nullEntity, address, type⟩ store.row := by
    have hlast : newestRow (store.commit params miner hash).ledger.getRow
        ⟨nullEntity, address, type⟩ (store.row + 2) =
        newestRow (store.commit params miner hash).ledger.getRow
          ⟨nullEntity, address, type⟩ store.row :=
      (lastRow_succ_of_ne (n := store.row + 1) hindex).trans (lastRow_succ_of_ne hminer)
    rw [newest, hlast]
    refine newest_congr _ fun i _ hlt => ?_
    rw [hlive.commit_getRow params miner hash (.inl hlt), if_pos hlt]
  have hrange : SameRange ((store.commit params miner hash).permissionRow
      ⟨nullEntity, address, type⟩ true)
      (newest store.logRow ⟨nullEntity, address, type⟩ store.row) := by
    rw [← hnewest]
    exact ⟨hread.blockFrom, hread.blockTo⟩
  exact hrange.inRange height

theorem Live.clear_commit_holdsAt (hlive : Live store) (miner : Hash160) (hash : Hash256)
    (hbound : store.block + 1 < 2 ^ 31) {type : PermType}
    (htype : type = MC_PTP_ADMIN ∨ type = MC_PTP_MINE) (address : Hash160) (height : ℕ) :
    (store.clearMemPool.commit params miner hash).holdsAt type address height =
      inRange (newest store.ledger.getRow ⟨nullEntity, address, type⟩ store.memPoolStart)
        height := by
  have hrest := hlive.clearMemPool_atRest
  obtain ⟨minerCount, hclear⟩ := hlive.clearMemPool_eq
  have hblock : store.clearMemPool.block = store.block := by rw [hclear]
  have hrow : store.clearMemPool.row = store.memPoolStart := by rw [hclear]
  have hledger : store.clearMemPool.ledger = store.ledger := by rw [hclear]
  have hstart := memPoolStart_of_empty hrest.memPool
  rw [hrest.live.commit_holdsAt miner hash (by rw [hblock]; exact hbound) htype address height,
    hrow]
  refine congrArg (fun row => inRange row height) (newest_congr _ fun i _ hlt => ?_)
  rw [logRow_of_lt (by rw [hstart, hrow]; exact hlt), hledger]

/-- A block that changes a permission at some height from its own on is flagged. -/
theorem Reachable.calculateBlockFlags_of_differs (hreach : Reachable params store)
    (miner : Hash160) (hash : Hash256) (hbound : store.block + 1 < 2 ^ 31) {type : PermType}
    (htype : type = MC_PTP_ADMIN ∨ type = MC_PTP_MINE) {address : Hash160} {height : ℕ}
    (hheight : store.nextBlock ≤ height)
    (hdiffers : (store.commit params miner hash).holdsAt type address height ≠
      (store.clearMemPool.commit params miner hash).holdsAt type address height) :
    store.calculateBlockFlags = MC_PFB_GOVERNANCE_CHANGE := by
  have hlive := hreach.live
  have hend := hlive.pool.start_add_length
  rw [hlive.commit_holdsAt miner hash hbound htype,
    hlive.clear_commit_holdsAt miner hash hbound htype] at hdiffers
  have hcommitted : newest store.logRow ⟨nullEntity, address, type⟩ store.memPoolStart =
      newest store.ledger.getRow ⟨nullEntity, address, type⟩ store.memPoolStart :=
    newest_congr _ fun i _ hlt => logRow_of_lt hlt
  rcases hreach.waiting.newest_range hlive ⟨nullEntity, address, type⟩ with
    hsame | ⟨i, hge, hlt, hkey, hconsensus, hsame, hlater⟩
  · rw [hcommitted] at hsame
    exact absurd (hsame.inRange height) hdiffers
  rw [hsame.inRange, ← hkey] at hdiffers
  have hchange : store.isGovernanceChange (store.logRow i) = true :=
    hlive.isGovernanceChange_of_differs hge hlt
      (by rw [hkey]; exact isAdminMinerKey_of_type htype) hconsensus
      (fun j hij hj hkeyj => hlater j hij hj (hkeyj.trans hkey)) hheight hdiffers
  have hmem : store.logRow i ∈ store.memPool := by
    have hpool : i - store.memPoolStart < store.memPool.length := by omega
    have hrow := logRow_memPool hpool
    rw [Nat.add_sub_cancel' hge] at hrow
    rw [hrow]
    exact List.getElem_mem hpool
  exact if_pos (List.any_eq_true.mpr ⟨_, hmem, hchange⟩)

/-- The loop of `FindGovernanceModelChange`, down the block-index rows.  The start
is at least `1`, so height `0` always ends it. -/
def governanceLoop (ledger : PermissionLedger) (start : ℕ) : ℕ → ℕ → ℕ
  | 0, _ => 0
  | block + 1, lastBlockRow =>
    if block + 1 < start then 0
    else if (ledger.getRow lastBlockRow).blockFlags &&& MC_PFB_GOVERNANCE_CHANGE ≠ 0 then
      block + 1
    else governanceLoop ledger start block (ledger.getRow lastBlockRow).prevRow

/-- `FindGovernanceModelChange`: `to` is compared with `m_Block` as a signed
number. -/
def findGovernanceModelChange (store : Store) (blockFrom blockTo : ℕ) : ℕ :=
  let start := if blockFrom = 0 then 1 else blockFrom
  let block :=
    if store.block < (BitVec.ofNat 32 blockTo).toInt then store.height else blockTo
  if block < blockFrom then 0
  else governanceLoop store.ledger start block (store.blockIndexRow block)

variable {chain : List CommittedBlock} {longest : ℕ}

def flaggedFrom (chain : List CommittedBlock) (start height : ℕ) : Prop :=
  start ≤ height ∧ (chain[height]?.any CommittedBlock.governance) = true

instance (start : ℕ) : DecidablePred (flaggedFrom chain start) :=
  fun height => inferInstanceAs (Decidable (start ≤ height ∧ _ = true))

/-- The loop finds the highest flagged height from the start on. -/
theorem ChainInv.governanceLoop_eq (hinv : ChainInv store chain longest) (start : ℕ) :
    ∀ height last, height < chain.length →
      BlockEnd store.ledger.getRow store.memPoolStart height last →
      governanceLoop store.ledger start height (last - 1) =
        Nat.findGreatest (flaggedFrom chain start) height := by
  have hlength := hinv.length
  intro height
  induction height with
  | zero => exact fun last _ _ => rfl
  | succ height ih =>
    intro last hlt hend
    have hblock := List.getElem?_eq_getElem hlt
    obtain ⟨last', hrecorded⟩ := hinv.log.recorded (height + 1) _ hblock
    obtain ⟨before, hbefore⟩ := hinv.live.files.log.ends height (by omega)
    have hlast : last' = last := hrecorded.isEnd.unique hend
    subst hlast
    have hlinked := hinv.log.linked height before last' hlt hbefore hend
    unfold governanceLoop
    by_cases hbelow : height + 1 < start
    · rw [if_pos hbelow]
      refine (Nat.findGreatest_eq_zero_iff.mpr fun low _ hle hflagged => ?_).symm
      exact absurd hflagged.1 (by omega)
    rw [if_neg hbelow, Nat.findGreatest_succ]
    by_cases hflag : chain[height + 1].governance = true
    · rw [if_pos (hrecorded.governance.mpr hflag),
        if_pos ⟨not_lt.mp hbelow, by rw [hblock]; exact hflag⟩]
    rw [if_neg (mt hrecorded.governance.mp hflag), if_neg fun hflagged => hflag (by
      have hany := hflagged.2
      rw [hblock] at hany
      exact hany)]
    rw [show (store.ledger.getRow (last' - 1)).prevRow = before - 1 from hlinked]
    exact ih before (by omega) hbefore

/-- `FindGovernanceModelChange` for heights of the chain. -/
theorem ChainInv.findGovernanceModelChange_eq (hinv : ChainInv store chain longest)
    (hblock : 0 ≤ store.block) (blockFrom : ℕ) {blockTo : ℕ} (hto : blockTo < 2 ^ 31) :
    store.findGovernanceModelChange blockFrom blockTo =
      Nat.findGreatest (flaggedFrom chain (max blockFrom 1)) (min blockTo (chain.length - 1)) := by
  have hlength := hinv.length
  have hlt := hinv.live.files.block_lt
  have hheight := height_of_nonneg hblock hlt
  have hsigned : (BitVec.ofNat 32 blockTo).toInt = blockTo := by
    have hnat : (BitVec.ofNat 32 blockTo).toNat = blockTo := by
      rw [BitVec.toNat_ofNat]
      omega
    rw [BitVec.toInt_eq_toNat_of_lt (by omega), hnat]
  have hstart : (if blockFrom = 0 then 1 else blockFrom) = max blockFrom 1 := by
    split <;> omega
  have htop : (if store.block < (BitVec.ofNat 32 blockTo).toInt then store.height
      else blockTo) = min blockTo (chain.length - 1) := by
    split <;> omega
  unfold findGovernanceModelChange
  rw [hstart, htop]
  by_cases hempty : min blockTo (chain.length - 1) < blockFrom
  · rw [if_pos hempty]
    refine (Nat.findGreatest_eq_zero_iff.mpr fun low _ hle hflagged => ?_).symm
    have hfrom := (le_max_left blockFrom 1).trans hflagged.1
    omega
  rw [if_neg hempty]
  obtain ⟨last, hend⟩ := hinv.live.files.log.ends (min blockTo (chain.length - 1)) (by omega)
  obtain ⟨dbRow, hlookup, hledgerRow⟩ := hinv.live.files.index.blockIndex _ last (by omega) hend
  have hrow : store.blockIndexRow (min blockTo (chain.length - 1)) = last - 1 := by
    rw [hinv.live.blockIndexRow_eq, hlookup]
    exact hledgerRow
  rw [hrow]
  exact hinv.governanceLoop_eq (max blockFrom 1) _ last (by omega) hend

/-- In every run a block that changes who may admin or mine at any height from
its own on is flagged, and `FindGovernanceModelChange` returns the highest
flagged height of its range, or `0`.  Its callers pass signed heights, on a chain
that is not empty. -/
theorem governanceChanges_flagged (hrun : ChainRun params store chain longest) :
    (∀ miner hash, store.Allowed (.commit miner hash) → ∀ type address height,
      type = MC_PTP_ADMIN ∨ type = MC_PTP_MINE → store.nextBlock ≤ height →
      (store.commit params miner hash).holdsAt type address height ≠
        (store.clearMemPool.commit params miner hash).holdsAt type address height →
      store.calculateBlockFlags = MC_PFB_GOVERNANCE_CHANGE) ∧
    (0 ≤ store.block → ∀ blockFrom blockTo, blockTo < 2 ^ 31 →
      store.findGovernanceModelChange blockFrom blockTo =
        Nat.findGreatest (flaggedFrom chain (max blockFrom 1)) (min blockTo (chain.length - 1))) :=
  ⟨fun miner hash hop _ _ _ htype hheight hdiffers =>
    hrun.reachable.calculateBlockFlags_of_differs miner hash hop htype hheight hdiffers,
    fun hblock blockFrom _ hto => hrun.inv.findGovernanceModelChange_eq hblock blockFrom hto⟩

def secondGranted : Store :=
  minedOnce.call .defaults (.grant secondMinerGrant)

def secondBlock : CommittedBlock where
  miner := firstMiner
  hash := 2
  governance := true

theorem secondGranted_run : ChainRun .defaults secondGranted [firstBlock] 1 :=
  minedOnce_run.apply (.call (.grant secondMinerGrant)) trivial

theorem secondMined_run : ChainRun .defaults (secondGranted.commit .defaults firstMiner 2)
    [firstBlock, secondBlock] 2 := by
  have hbound : secondGranted.block + 1 < 2 ^ 31 := by decide +kernel
  have hrun := secondGranted_run.apply (.commit firstMiner 2) hbound
  have hchain : secondGranted.chainAfter [firstBlock] (.commit firstMiner 2) =
      [firstBlock, secondBlock] := by
    rfl
  exact hrun

theorem secondMined_flagged : secondGranted.calculateBlockFlags = MC_PFB_GOVERNANCE_CHANGE ∧
    (secondGranted.commit .defaults firstMiner 2).findGovernanceModelChange 1 5 = 1 := by
  refine ⟨?_, ?_⟩
  · exact (governanceChanges_flagged secondGranted_run).1 firstMiner 2
      (show secondGranted.block + 1 < 2 ^ 31 by decide +kernel) MC_PTP_MINE
      secondMinerGrant.address 1 (.inr rfl) (by decide +kernel) (by decide +kernel)
  decide +kernel

end Store

end Amberchain.Permission
