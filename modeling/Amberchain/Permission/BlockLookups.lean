import Amberchain.Permission.CommittedChain

/-!
# Blocks by height

`GetBlockMiner` and `VerifyBlockHash` find a block through its block-index key.
They answer for the committed chain, but also for a height that was rolled back
and has not been committed again: a rollback puts the key back to the
block-index row of the block before.
-/

namespace Amberchain.Permission

namespace Store

def blockIndexRow (store : Store) (block : ℕ) : ℕ :=
  (store.getPermission (blockIndexKey block) true).2.thisRow

/-- `GetBlockMiner` by height: the row before the block-index row. -/
def getBlockMinerAt (store : Store) (block : ℕ) : Except McError Hash160 :=
  let lastBlockRow := store.blockIndexRow block
  if lastBlockRow ≤ 1 then .error .notFound
  else
    let row := store.ledger.getRow (lastBlockRow - 1)
    if row.key.type = MC_PTP_BLOCK_MINER then .ok row.key.address
    else .error .corrupted

def verifyBlockHash (store : Store) (block : ℕ) (hash : Hash256) : Bool :=
  let lastBlockRow := store.blockIndexRow block
  if lastBlockRow = 0 then false
  else (store.ledger.getRow lastBlockRow).commitHash = hash

variable {params : ChainParams} {store : Store} {chain : List CommittedBlock} {longest : ℕ}

/-- No grant has the type of a block-index row, so the key is read from the
database. -/
theorem Live.blockIndexRow_eq (hlive : Live store) (block : ℕ) : store.blockIndexRow block =
      ((store.db.rows.lookup (blockIndexKey block)).map DBRow.ledgerRow).getD 0 := by
  have hplain : isForkType (blockIndexKey block).type = false := by
    show isForkType MC_PTP_BLOCK_INDEX = false
    decide
  have hentity : (blockIndexKey block).entity ≠ upgradeEntity := by
    show nullEntity ≠ upgradeEntity
    decide
  have hseek : ∀ prevRow, seekMemPool store.memPool (blockIndexKey block) prevRow = none := by
    intro prevRow
    refine List.find?_eq_none.mpr fun row hmem hfound => ?_
    have hgrant := hlive.grantType row hmem
    rw [(of_decide_eq_true hfound).1] at hgrant
    exact absurd hgrant (by
      show ¬ isGrantType MC_PTP_BLOCK_INDEX = true
      decide)
  have hrow : store.permissionRow (blockIndexKey block) true =
      store.permissionRow (blockIndexKey block) false :=
    followMemPool_of_seek_none (hseek _) _ _
  show (store.permissionRow (blockIndexKey block) true).thisRow = _
  rw [hrow]
  unfold permissionRow committedRow
  cases store.db.rows.lookup (blockIndexKey block) with
  | none => rfl
  | some dbRow =>
    simp only [if_neg hentity, hplain, Bool.false_eq_true, and_false, if_false]
    rfl

structure LookupsExact (store : Store) (chain : List CommittedBlock) : Prop where
  miner : ∀ block < 2 ^ 32, ∀ miner, store.getBlockMinerAt block = .ok miner ↔
    chain[block]?.map CommittedBlock.miner = some miner
  hash : ∀ block < 2 ^ 32, ∀ hash, store.verifyBlockHash block hash = true ↔
    chain[block]?.map CommittedBlock.hash = some hash

theorem ChainInv.lookups_committed (hinv : ChainInv store chain longest) {height : ℕ}
    {block : CommittedBlock} (hblock : chain[height]? = some block) :
    store.getBlockMinerAt height = .ok block.miner ∧
      ∀ hash, store.verifyBlockHash height hash = decide (block.hash = hash) := by
  obtain ⟨last, hrecorded⟩ := hinv.log.recorded height block hblock
  have htwo := hrecorded.isEnd.two_lt
  have hlt := (List.getElem?_eq_some_iff.mp hblock).1
  have hlength := hinv.length
  obtain ⟨dbRow, hlookup, hledgerRow⟩ :=
    hinv.live.files.index.blockIndex height last (by omega) hrecorded.isEnd
  have hrow : store.blockIndexRow height = last - 1 := by
    rw [hinv.live.blockIndexRow_eq, hlookup]
    exact hledgerRow
  refine ⟨?_, fun hash => ?_⟩
  · unfold getBlockMinerAt
    dsimp only
    rw [hrow, show last - 1 - 1 = last - 2 by omega, hrecorded.miner, if_neg (by omega)]
    rfl
  unfold verifyBlockHash
  dsimp only
  rw [hrow, hrecorded.hash, if_neg (by omega)]

theorem Live.lookups_absent (hlive : Live store) {height : ℕ}
    (habsent : store.db.rows.lookup (blockIndexKey height) = none) :
    store.getBlockMinerAt height = .error .notFound ∧
      ∀ hash, store.verifyBlockHash height hash = false := by
  have hrow : store.blockIndexRow height = 0 := by
    rw [hlive.blockIndexRow_eq, habsent]
    rfl
  refine ⟨?_, fun hash => ?_⟩
  · unfold getBlockMinerAt
    rw [hrow]
    rfl
  unfold verifyBlockHash
  rw [hrow]
  rfl

theorem ChainInv.verifyBlockHash_stale (hinv : ChainInv store chain longest) {height : ℕ}
    (hpos : 1 ≤ height) (hover : chain.length ≤ height) (hlt : height < longest) :
    ∃ hash, store.verifyBlockHash height hash = true := by
  obtain ⟨dbRow, hlookup, hledgerRow⟩ := hinv.keys.stale height hpos hover hlt
  have hrow : store.blockIndexRow height = dbRow.ledgerRow := by
    rw [hinv.live.blockIndexRow_eq, hlookup]
    rfl
  refine ⟨(store.ledger.getRow dbRow.ledgerRow).commitHash, ?_⟩
  unfold verifyBlockHash
  rw [hrow, if_neg hledgerRow]
  exact decide_eq_true rfl

/-- In every run the lookups answer exactly for the committed chain if and only
if no height from `1` on was rolled back without being committed again. -/
theorem lookupsExact_iff (hrun : ChainRun params store chain longest) :
    LookupsExact store chain ↔ longest ≤ max chain.length 1 := by
  have hinv := hrun.inv
  have hlongest := hinv.longest_le
  constructor
  · intro hexact
    by_contra hnot
    have hlt : max chain.length 1 < longest := not_le.mp hnot
    have hover : chain.length ≤ max chain.length 1 := le_max_left _ _
    obtain ⟨hash, hverified⟩ := hinv.verifyBlockHash_stale (le_max_right _ _) hover hlt
    have hfound := (hexact.hash _ (by omega) hash).mp hverified
    rw [List.getElem?_eq_none hover] at hfound
    cases hfound
  intro hall
  have habsent : ∀ block < 2 ^ 32, chain.length ≤ block →
      store.db.rows.lookup (blockIndexKey block) = none :=
    fun block hblock hover => hinv.keys.absent block hblock (by omega)
  refine ⟨fun block hblock miner => ?_, fun block hblock hash => ?_⟩
  · cases hfound : chain[block]? with
    | none =>
      have hover := List.getElem?_eq_none_iff.mp hfound
      rw [(hinv.live.lookups_absent (habsent block hblock hover)).1]
      simp
    | some committed =>
      rw [(hinv.lookups_committed hfound).1]
      simp
  cases hfound : chain[block]? with
  | none =>
    have hover := List.getElem?_eq_none_iff.mp hfound
    rw [(hinv.live.lookups_absent (habsent block hblock hover)).2]
    simp
  | some committed =>
    rw [(hinv.lookups_committed hfound).2]
    simp

def secondRolledBack : Store :=
  (minedOnce.commit .defaults firstMiner 2).rollBack 0

def firstBlock : CommittedBlock where
  miner := firstMiner
  hash := 1
  governance := true

theorem minedOnce_run : ChainRun .defaults minedOnce [firstBlock] 1 := by
  have hstart : ChainRun .defaults newStore [] 0 := .start
  have hgranted := hstart.apply (.call (.grant firstMinerGrant)) trivial
  have hbound : (newStore.call .defaults (.grant firstMinerGrant)).block + 1 < 2 ^ 31 := by
    decide +kernel
  exact hgranted.apply (.commit firstMiner 1) hbound

theorem secondRolledBack_run : ChainRun .defaults secondRolledBack [firstBlock] 2 := by
  have hbound : minedOnce.block + 1 < 2 ^ 31 := by decide +kernel
  have htarget : (-1 : ℤ) ≤ 0 ∧ 0 ≤ (minedOnce.commit .defaults firstMiner 2).block := by
    decide +kernel
  have hsecond := minedOnce_run.apply (.commit firstMiner 2) hbound
  exact hsecond.apply (.rollBack 0) htarget

theorem minedOnce_lookupsExact : LookupsExact minedOnce [firstBlock] ↔
    1 ≤ max [firstBlock].length 1 :=
  lookupsExact_iff minedOnce_run

/-- The height of the second block still answers, with the first block's miner
and hash. -/
theorem secondRolledBack_found :
    ¬ ∀ (params : ChainParams) (store : Store) (chain : List CommittedBlock) (longest : ℕ),
      ChainRun params store chain longest → LookupsExact store chain := by
  intro hexact
  have hlookups := hexact .defaults secondRolledBack [firstBlock] 2 secondRolledBack_run
  have hminer := (hlookups.miner 1 (by norm_num) firstMiner).mp (by decide +kernel)
  cases hminer

end Store

end Amberchain.Permission
