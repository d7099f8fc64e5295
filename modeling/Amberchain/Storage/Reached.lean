import Amberchain.Storage.DisconnectBlock

/-!
# Views reached from the genesis block

Blocks are connected on views that are opened, filled, flushed and closed in between.
`DisconnectBlock` undoes a block on each of them.
-/

namespace Amberchain.Storage

open Transaction CoinsStack

variable {env : ConnectEnv} {block : Block} {index : BlockIndex} {view next : CoinsStack}
  {coinsOf after : CoinsOf} {hashBlock : Hash256}

theorem values_nonneg_of_addValue {outs : List TxOut} {total : ℤ}
    (hsome : (outs.foldlM (addValue env) total).isSome = true) : ∀ out ∈ outs, 0 ≤ out.value := by
  induction outs generalizing total with
  | nil => exact fun out hmem => by cases hmem
  | cons first outs ih =>
    rw [List.foldlM_cons] at hsome
    cases hnext : addValue env total first with
    | none =>
      rw [hnext] at hsome
      cases hsome
    | some added =>
      rw [hnext] at hsome
      intro out hmem
      cases List.mem_cons.mp hmem with
      | inl heq =>
        rw [heq]
        by_contra hneg
        unfold addValue at hnext
        rw [if_pos (Int.not_le.mp hneg)] at hnext
        cases hnext
      | inr htail => exact ih hsome out htail

structure WellFormedBlock (block : Block) (coinbase : VersionedTx) (txs : List VersionedTx) :
    Prop where
  vtx : block.vtx = coinbase :: txs
  coinbase : coinbase.isCoinBase = true
  plain : ∀ tx ∈ txs, tx.isCoinBase = false
  values : ∀ tx ∈ block.vtx, ∀ out ∈ tx.vout, 0 ≤ out.value

theorem exists_wellFormedBlock (hcheck : checkBlock env block = true) :
    ∃ coinbase txs, WellFormedBlock block coinbase txs := by
  unfold checkBlock at hcheck
  rw [Bool.and_eq_true, Bool.and_eq_true] at hcheck
  obtain ⟨⟨_, htxs⟩, hfirst⟩ := hcheck
  have hvalues : ∀ tx ∈ block.vtx, ∀ out ∈ tx.vout, 0 ≤ out.value := by
    intro tx hmem
    have htx := List.all_eq_true.mp htxs tx hmem
    unfold checkTransaction at htx
    rw [decide_eq_true_iff] at htx
    exact values_nonneg_of_addValue htx.2.2.2.1
  split at hfirst
  · cases hfirst
  rename_i coinbase txs hvtx
  rw [Bool.and_eq_true] at hfirst
  refine ⟨coinbase, txs, hvtx, hfirst.1, fun tx hmem => ?_, hvalues⟩
  have hplain := List.all_eq_true.mp hfirst.2 tx hmem
  rwa [Bool.not_eq_true'] at hplain

structure Connected (env : ConnectEnv) (block : Block) (index : BlockIndex) (view : CoinsStack)
    (coinsOf : CoinsOf) (next : CoinsStack) (undo : List TxUndo) : Prop where
  checked : checkBlock env block = true
  previous : view.getBestBlock.1 = index.prevHash
  connected : ∃ after undos, CoinsOf.connectAll env index block.vtx coinsOf = some (after, undos) ∧
    undo = undos.tail ∧ IsView next after index.hash

theorem connected_of_connectBlock {undo : List TxUndo} (hshows : Shows view coinsOf)
    (hne : view.caches ≠ []) (hconnect : connectBlock env block index view = some (next, undo)) :
    Connected env block index view coinsOf next undo := by
  unfold connectBlock at hconnect
  dsimp only at hconnect
  split at hconnect
  · cases hconnect
  rename_i hchecked
  rw [Bool.not_eq_true', Bool.not_eq_false] at hchecked
  split at hconnect
  · cases hconnect
  rename_i hprevious
  rw [not_not] at hprevious
  split at hconnect
  · cases hconnect
  rename_i connected undos htxs
  split at hconnect
  · cases hconnect
  cases hconnect
  obtain ⟨after, hafter, hview⟩ := (IsView.of_getBestBlock hshows hne).connectTxs htxs
  exact ⟨hchecked, hprevious.symm, after, undos, hafter, rfl, hview.setBestBlock index.hash⟩

theorem CoinsOf.Sound.connectAll {txs : List VersionedTx} {undos : List TxUndo}
    (hsound : coinsOf.Sound) (hvalues : ∀ tx ∈ txs, ∀ out ∈ tx.vout, 0 ≤ out.value)
    (hconnect : CoinsOf.connectAll env index txs coinsOf = some (after, undos)) : after.Sound := by
  induction txs generalizing coinsOf undos with
  | nil =>
    cases hconnect
    exact hsound
  | cons tx txs ih =>
    obtain ⟨⟨mid, undo⟩, hmid, hrest⟩ := Option.bind_eq_some_iff.mp hconnect
    obtain ⟨⟨last, later⟩, hlater, hlast⟩ := Option.bind_eq_some_iff.mp hrest
    cases hlast
    exact ih ((hsound.spendAll hmid).create (hvalues tx (.head _)))
      (fun other hother => hvalues other (.tail _ hother)) hlater

def CacheOp.keepsCoins : CacheOp → Bool
  | .modifyCoins .. => false
  | .batchWrite .. => false
  | _ => true

/-- Views after the genesis block, which adds no coins, and more blocks. -/
inductive Reached (env : ConnectEnv) : CoinsStack → Prop where
  | genesis (depth : ℕ) (db : CoinsDB) (hempty : ∀ txid, db.coins txid = none) :
      Reached env (start (depth + 1) db)
  | connected {view next : CoinsStack} {block : Block} {index : BlockIndex} {undo : List TxUndo}
      (hview : Reached env view)
      (hconnect : connectBlock env block index view = some (next, undo)) : Reached env next
  | opened {view : CoinsStack} (hview : Reached env view) :
      Reached env ⟨CoinsCache.opened :: view.caches, view.db⟩
  | performed {view next : CoinsStack} (hview : Reached env view) (op : CacheOp)
      (hop : op.keepsCoins = true) (hallowed : view.Allowed op)
      (hperform : view.perform op = some next) (hne : next.caches ≠ []) : Reached env next
  | closed {cache parent : CoinsCache} {below : List CoinsCache} {db : CoinsDB}
      (hview : Reached env ⟨cache :: parent :: below, db⟩) (hempty : cache.cacheCoins = ∅) :
      Reached env ⟨parent :: below, db⟩

/-- A reached view has a cache, and shows coins that blocks made. -/
theorem Reached.shows (hreached : Reached env view) :
    view.caches ≠ [] ∧ ∃ coinsOf : CoinsOf, Shows view coinsOf ∧ coinsOf.Sound := by
  induction hreached with
  | genesis depth db hempty =>
    refine ⟨by simp [start, List.replicate_succ], db.coins, shows_start (depth + 1) db, ?_⟩
    intro txid found hfound
    rw [hempty txid] at hfound
    cases hfound
  | @connected view next block index undo _ hconnect ih =>
    obtain ⟨hne, coinsOf, hshows, hsound⟩ := ih
    obtain ⟨hchecked, _, after, undos, hafter, _, hview⟩ :=
      connected_of_connectBlock hshows hne hconnect
    obtain ⟨_, _, hblock⟩ := exists_wellFormedBlock hchecked
    obtain ⟨cache, below, hcaches, _⟩ := hview.exists_cons
    exact ⟨by rw [hcaches]; exact List.cons_ne_nil _ _, after, hview.shows,
      hsound.connectAll hblock.values hafter⟩
  | @opened view _ ih =>
    obtain ⟨_, coinsOf, hshows, hsound⟩ := ih
    have hnone : ∀ txid, CoinsCache.opened.cacheCoins.lookup txid = none := AList.lookup_empty
    refine ⟨List.cons_ne_nil _ _, coinsOf, ⟨.cons (fun txid entry hentry => ?_) hshows.consistent,
      fun txid => (visible_of_none (hnone txid)).trans (hshows.visible txid)⟩, hsound⟩
    cases hentry
  | performed _ op hop hallowed hperform hne ih =>
    obtain ⟨_, coinsOf, hshows, hsound⟩ := ih
    obtain ⟨final, hfinal, hfinalShows⟩ := hshows.perform op hallowed
    rw [hperform] at hfinal
    cases hfinal
    refine ⟨hne, coinsOf, ?_, hsound⟩
    cases op <;> first | exact hfinalShows | cases hop
  | closed _ hempty ih =>
    obtain ⟨_, coinsOf, hshows, hsound⟩ := ih
    refine ⟨List.cons_ne_nil _ _, coinsOf, ⟨?_, fun txid => ?_⟩, hsound⟩
    · cases hshows.consistent with
      | cons _ hbelow => exact hbelow
    rw [← hshows.visible txid]
    exact (visible_of_none (by rw [hempty]; exact AList.lookup_empty txid)).symm

structure SameLookups (first second : CoinsStack) : Prop where
  getCoins : ∀ txid, (first.getCoins txid).1.filter (fun coins => !coins.isPruned) =
    (second.getCoins txid).1.filter fun coins => !coins.isPruned
  haveCoins : ∀ txid, (first.haveCoins txid).1 = (second.haveCoins txid).1

theorem sameLookups_of_shows (hview : Shows view coinsOf) (hnext : Shows next coinsOf) :
    SameLookups next view where
  getCoins := fun txid => (hnext.getCoins_eq txid).trans (hview.getCoins_eq txid).symm
  haveCoins := fun txid => (hnext.haveCoins_eq txid).trans (hview.haveCoins_eq txid).symm

def plainEnv : ConnectEnv where
  unspendable := fun _ => false
  maxMoney := 1000
  oversized := fun _ => false
  checkBlockHeader := fun _ => true
  checkInputs := fun _ _ _ => true
  acceptBlock := fun _ _ => true

def genesisDB : CoinsDB where
  coins := fun _ => none
  bestBlock := 100

def firstIndex : BlockIndex where
  hash := 101
  prevHash := 100
  prevHeight := 0
  hash_ne_zero := by decide
  prevHash_ne_zero := by decide

def secondIndex : BlockIndex where
  hash := 102
  prevHash := 101
  prevHeight := 1
  hash_ne_zero := by decide
  prevHash_ne_zero := by decide

def coinbaseTx (hash : Hash256) (version : ℤ) : VersionedTx where
  hash := hash
  vin := [⟨⟨0, 0xffffffff⟩, [1, 1]⟩]
  vout := [⟨50, []⟩]
  version := version

def spendingTx (hash spent : Hash256) : VersionedTx where
  hash := hash
  vin := [⟨⟨spent, 0⟩, []⟩]
  vout := [⟨20, []⟩]
  version := 1

/-- The second block is taken back: the coins under a txid before, whether all was found
clean, and the coins after. -/
def takeBack (first second : Block) (txid : Hash256) :
    Option (Option Coins × Bool × Option Coins) := do
  let (view, _) ← connectBlock plainEnv first firstIndex (start 1 genesisDB)
  let (next, undo) ← connectBlock plainEnv second secondIndex view
  let (back, clean) ← disconnectBlock plainEnv second secondIndex (storedUndo undo) next
  some ((view.getCoins txid).1, clean, (back.getCoins txid).1)

end Amberchain.Storage
