import Amberchain.Storage.Values
import Amberchain.Validation.Accepted
import Amberchain.Validation.Progress

/-!
# The native currency

The values of all unspent outputs, over the blocks of a chain from its first one.  A block
adds no more than its subsidy, whatever its transactions spend, and the fees of its
transactions are added up without overflow.
-/

namespace Amberchain.Validation

open Failing Interpreter Storage Transaction

def totalSubsidy (env : BlockEnv) (height : ℕ) : ℤ :=
  ∑ h ∈ Finset.Icc 1 height, getBlockValue env h 0

/-- The parameters of the native currency: rewards and the greatest value of an output in
their ranges, and an exact total that fits the check of the parameters.  Without rewards there
is no currency, and no value. -/
structure CurrencyParams (env : BlockEnv) : Prop where
  initial : 0 ≤ env.initialBlockReward ∧ env.initialBlockReward ≤ 10 ^ 18
  first : env.firstBlockReward ≤ 10 ^ 18
  maxMoney : env.check.maxMoney ≤ 10 ^ 18
  without : env.params.withNativeCurrency = false → env.check.maxMoney = 0
  total : ∀ height, totalSubsidy env height ≤ 9 * 10 ^ 18

/-- Between the bounds of a signed 64-bit integer. -/
def FitsAmount (value : ℤ) : Prop :=
  -2 ^ 63 ≤ value ∧ value < 2 ^ 63

theorem toAmount_of_fits {value : ℤ} (hfits : FitsAmount value) : toAmount value = value := by
  obtain ⟨hlow, hhigh⟩ := hfits
  exact Int.bmod_eq_of_le (by omega) (by omega)

def subsidy (env : BlockEnv) (height : ℕ) : ℤ :=
  if 64 ≤ height / env.halvingInterval then 0
  else (if height = 1 ∧ 0 ≤ env.firstBlockReward then env.firstBlockReward
    else env.initialBlockReward) / 2 ^ (height / env.halvingInterval)

variable {env : BlockEnv} {index : BlockIndex} {tx : SignedTx} {coinsOf : CoinsOf}
  {rules : Rules} {totals final : Totals} {world next : World}

theorem subsidy_range (hparams : CurrencyParams env) (height : ℕ) :
    0 ≤ subsidy env height ∧ subsidy env height ≤ 10 ^ 18 := by
  obtain ⟨hinitial, hinitialMax⟩ := hparams.initial
  have hfirst := hparams.first
  have hreward : 0 ≤ (if height = 1 ∧ 0 ≤ env.firstBlockReward then env.firstBlockReward
      else env.initialBlockReward)
      ∧ (if height = 1 ∧ 0 ≤ env.firstBlockReward then env.firstBlockReward
      else env.initialBlockReward) ≤ 10 ^ 18 := by
    split
    · rename_i hheight
      exact ⟨hheight.2, hfirst⟩
    · exact ⟨hinitial, hinitialMax⟩
  unfold subsidy
  split
  · exact ⟨le_refl _, by decide⟩
  generalize (if height = 1 ∧ 0 ≤ env.firstBlockReward then env.firstBlockReward
    else env.initialBlockReward) = reward at hreward ⊢
  have hpositive : (0 : ℤ) < 2 ^ (height / env.halvingInterval) := by positivity
  constructor
  · exact Int.ediv_nonneg hreward.1 hpositive.le
  exact (Int.ediv_le_self _ hreward.1).trans hreward.2

/-- `GetBlockValue` adds in 64 bits. -/
theorem getBlockValue_toAmount (env : BlockEnv) (height : ℕ) (exact : ℤ) :
    getBlockValue env height (toAmount exact) = toAmount (subsidy env height + exact) := by
  unfold getBlockValue subsidy
  dsimp only
  split
  · rw [zero_add]
  exact Int.add_bmod_bmod

theorem getBlockValue_zero (hparams : CurrencyParams env) (height : ℕ) :
    getBlockValue env height 0 = subsidy env height := by
  obtain ⟨hlow, hhigh⟩ := subsidy_range hparams height
  have hzero := getBlockValue_toAmount env height 0
  rw [show toAmount 0 = 0 from rfl, add_zero] at hzero
  rw [hzero]
  exact toAmount_of_fits ⟨by omega, by omega⟩

theorem totalSubsidy_succ (hparams : CurrencyParams env) (height : ℕ) :
    totalSubsidy env (height + 1) = totalSubsidy env height + subsidy env (height + 1) := by
  rw [totalSubsidy, Finset.sum_Icc_succ_top (Nat.le_add_left 1 height), getBlockValue_zero hparams]
  rfl

theorem spentBy_of_coinbase (hcoinbase : tx.isCoinBase = true) :
    CoinsOf.spentBy (versioned tx) = [] :=
  if_pos hcoinbase

theorem spentBy_of_not_coinbase (hcoinbase : tx.isCoinBase = false) :
    CoinsOf.spentBy (versioned tx) = tx.vin :=
  if_neg (Bool.eq_false_iff.mp hcoinbase)

theorem spentValue_of_unspent {input : TxIn}
    (hunspent : (CoinsOf.unspent coinsOf input.prevout).isSome = true) : spentValue coinsOf input
      = ((CoinsOf.unspent coinsOf input.prevout).map TxOut.value).getD 0 := by
  obtain ⟨out, hout⟩ := Option.isSome_iff_exists.mp hunspent
  rw [hout]
  obtain ⟨found, hfound, hat⟩ := Option.bind_eq_some_iff.mp hout
  obtain ⟨hget, -⟩ := Option.filter_eq_some_iff.mp hat
  rw [spentValue, hfound]
  dsimp only
  rw [hget]

theorem TxConnected.within (hconnected : TxConnected env index tx world next totals final)
    (hvalues : ValuesChecked env tx) (hwithin : world.coinsOf.Within env.check.maxMoney) :
    next.coinsOf.Within env.check.maxMoney := by
  obtain ⟨spent, undos, hspent⟩ := hconnected.spent
  rw [hconnected.coins, coinsAfter, hspent]
  exact CoinsOf.within_update (hwithin.spendAll hspent) (CoinsOf.valuesWithin_fromTx hvalues.values)

/-- What a connected transaction does to the value of the coins. -/
theorem TxConnected.value_le (hconnected : TxConnected env index tx world next totals final)
    (hnative : env.params.withNativeCurrency = true) (hvalues : ValuesChecked env tx)
    (hwithin : world.coinsOf.Within env.check.maxMoney) :
    next.coinsOf.value + txFee env tx world.coinsOf
      ≤ world.coinsOf.value + if tx.isCoinBase then outputValue tx else 0 := by
  obtain ⟨spent, undos, hspent⟩ := hconnected.spent
  have hcreated : next.coinsOf.value ≤ spent.value + outputValue tx := by
    rw [hconnected.coins, coinsAfter, hspent]
    exact @CoinsOf.value_create_le _ _ (versioned tx) _ _ (hwithin.spendAll hspent) hvalues.values
  obtain ⟨hunspent, htaken⟩ := CoinsOf.spendAll_value hspent
  cases hcoinbase : tx.isCoinBase with
  | true =>
    rw [spentBy_of_coinbase hcoinbase] at htaken
    have hnone : CoinsOf.inputValue world.coinsOf [] = 0 := rfl
    rw [txFee, hcoinbase, Bool.true_or, if_pos rfl, if_pos rfl]
    omega
  | false =>
    rw [spentBy_of_not_coinbase hcoinbase] at htaken hunspent
    have hinputs : inputSum world.coinsOf tx = CoinsOf.inputValue world.coinsOf tx.vin := by
      rw [inputSum]
      congr 1
      exact List.map_congr_left fun input hmem => spentValue_of_unspent (hunspent input hmem)
    rw [txFee, hcoinbase, hnative, Bool.not_true, Bool.or_false, if_neg Bool.false_ne_true,
      if_neg Bool.false_ne_true]
    omega

theorem value_eq_zero (hwithin : coinsOf.Within 0) : coinsOf.value = 0 := by
  apply Finset.sum_eq_zero
  intro txid _
  cases hfound : coinsOf txid with
  | none => rfl
  | some found =>
    apply List.sum_eq_zero
    intro value hmem
    obtain ⟨out, hout, rfl⟩ := List.mem_map.mp hmem
    cases hnull : isNull out with
    | true => exact unspentValue_of_null hnull
    | false =>
      obtain ⟨hlow, hhigh⟩ := hwithin txid found hfound out hout hnull
      rw [unspentValue_of_unspent hnull]
      omega

/-- The fees of transactions one after the other, without bounds. -/
def feeTotal (env : BlockEnv) (index : BlockIndex) : List SignedTx → CoinsOf → ℤ
  | [], _ => 0
  | tx :: txs, coinsOf => txFee env tx coinsOf + feeTotal env index txs (coinsAfter env index tx coinsOf)

def coinbaseValue (txs : List SignedTx) : ℤ :=
  (txs.map fun tx => if tx.isCoinBase then outputValue tx else 0).sum

theorem coinbaseValue_cons (tx : SignedTx) (txs : List SignedTx) :
    coinbaseValue (tx :: txs) = (if tx.isCoinBase then outputValue tx else 0) + coinbaseValue txs :=
  rfl

variable {txs : List SignedTx}

theorem coinbaseValue_of_none
    (hnone : ∀ tx ∈ txs, tx.isCoinBase = false) : coinbaseValue txs = 0 := by
  apply List.sum_eq_zero
  intro value hmem
  obtain ⟨tx, htx, rfl⟩ := List.mem_map.mp hmem
  rw [hnone tx htx, if_neg Bool.false_ne_true]

theorem loop_fees {exact : ℤ} (hexact : totals.fees = toAmount exact)
    (hrun : txs.foldlM (connectTx env index rules) totals world = .ok final next) :
    0 ≤ feeTotal env index txs world.coinsOf
      ∧ final.fees = toAmount (exact + feeTotal env index txs world.coinsOf) := by
  induction txs generalizing totals world exact with
  | nil =>
    cases hrun
    exact ⟨le_refl _, hexact.trans (by rw [feeTotal, add_zero])⟩
  | cons tx txs ih =>
    obtain ⟨middle, connected, hfirst, hrest⟩ := bind_eq_ok.mp hrun
    have htx := connectTx_eq_ok hfirst
    obtain ⟨hnonneg, hfees⟩ := ih (htx.fees exact hexact) hrest
    rw [htx.coins] at hnonneg hfees
    rw [feeTotal, ← add_assoc]
    exact ⟨add_nonneg htx.fee hnonneg, hfees⟩

theorem loop_within (hvalues : ∀ tx ∈ txs, ValuesChecked env tx)
    (hwithin : world.coinsOf.Within env.check.maxMoney)
    (hrun : txs.foldlM (connectTx env index rules) totals world = .ok final next) :
    next.coinsOf.Within env.check.maxMoney := by
  induction txs generalizing totals world with
  | nil =>
    cases hrun
    exact hwithin
  | cons tx txs ih =>
    obtain ⟨middle, connected, hfirst, hrest⟩ := bind_eq_ok.mp hrun
    obtain ⟨hhead, htail⟩ := List.forall_mem_cons.mp hvalues
    exact ih htail ((connectTx_eq_ok hfirst).within hhead hwithin) hrest

/-- The transactions of a block add no more to the value of the coins than its coinbase pays,
less the fees. -/
theorem loop_value (hnative : env.params.withNativeCurrency = true)
    (hvalues : ∀ tx ∈ txs, ValuesChecked env tx) (hwithin : world.coinsOf.Within env.check.maxMoney)
    (hrun : txs.foldlM (connectTx env index rules) totals world = .ok final next) :
    next.coinsOf.value + feeTotal env index txs world.coinsOf
      ≤ world.coinsOf.value + coinbaseValue txs := by
  induction txs generalizing totals world with
  | nil =>
    cases hrun
    exact le_refl _
  | cons tx txs ih =>
    obtain ⟨middle, connected, hfirst, hrest⟩ := bind_eq_ok.mp hrun
    have htx := connectTx_eq_ok hfirst
    obtain ⟨hhead, htail⟩ := List.forall_mem_cons.mp hvalues
    have hstep := htx.value_le hnative hhead hwithin
    have hsum := ih htail (htx.within hhead hwithin) hrest
    rw [feeTotal, coinbaseValue_cons, ← htx.coins]
    omega

theorem loop_coins (hrun : txs.foldlM (connectTx env index rules) totals world = .ok final next) :
    next.coinsOf = txs.foldl (fun coinsOf tx => coinsAfter env index tx coinsOf) world.coinsOf := by
  induction txs generalizing totals world with
  | nil =>
    cases hrun
    rfl
  | cons tx txs ih =>
    obtain ⟨middle, connected, hfirst, hrest⟩ := bind_eq_ok.mp hrun
    rw [List.foldl_cons, ← (connectTx_eq_ok hfirst).coins]
    exact ih hrest

theorem feeTotal_of_without (hnative : env.params.withNativeCurrency = false)
    (txs : List SignedTx) (coinsOf : CoinsOf) : feeTotal env index txs coinsOf = 0 := by
  induction txs generalizing coinsOf with
  | nil => rfl
  | cons tx txs ih =>
    rw [feeTotal, ih, txFee, hnative, Bool.not_false, Bool.or_true, if_pos rfl, zero_add]

theorem feeTotal_append (txs rest : List SignedTx) (coinsOf : CoinsOf) :
    feeTotal env index (txs ++ rest) coinsOf = feeTotal env index txs coinsOf
      + feeTotal env index rest (txs.foldl (fun coinsOf tx => coinsAfter env index tx coinsOf)
        coinsOf) := by
  induction txs generalizing coinsOf with
  | nil => exact (zero_add _).symm
  | cons tx txs ih =>
    rw [List.cons_append, feeTotal, ih, feeTotal, List.foldl_cons, add_assoc]

/-- What an accepted block has done: the loop over its transactions, and the check of its
coinbase; or nothing to the coins, when it is the genesis block. -/
inductive Connected (env : BlockEnv) (block : Block) (index : BlockIndex) (before after : World) :
    Prop where
  | genesis (hgenesis : block.hash = env.genesisHash) (hsame : after.coinsOf = before.coinsOf)
  | block {miner : Hash160} {begun checked connected : World} {totals : Totals} {value : ℤ}
      {coinbase : SignedTx} {rest : List SignedTx}
      (hgenesis : block.hash ≠ env.genesisHash)
      (hbegun : beginBlock env block index false before = .ok miner begun)
      (hchecked : checkOverwrites env block begun = .ok ⟨⟩ checked)
      (hloop : block.vtx.foldlM (connectTx env index (rulesOf env block index false))
        ⟨0, 0, firstOffset block, []⟩ checked = .ok totals connected)
      (hvtx : block.vtx = coinbase :: rest)
      (hvalue : getValueOut env.check coinbase = .ok value)
      (hsubsidy : value ≤ getBlockValue env index.height totals.fees)
      (hafter : after.coinsOf = connected.coinsOf)

theorem connectBlock_eq_ok {disk : Disk} {block : Block} {before after : World} {fees : ℤ}
    (hchecked : TxsChecked env block)
    (hrun : connectBlock env disk block index false before = .ok fees after) :
    Connected env block index before after := by
  obtain ⟨miner, begun, hbegun, hrun⟩ := bind_eq_ok.mp hrun
  have hbefore := (beginBlock_keepsCoins env block index false).eq hbegun
  by_cases hgenesis : block.hash = env.genesisHash
  · rw [if_pos hgenesis] at hrun
    have hafter := (connectGenesis_keepsCoins env disk block index miner).eq hrun
    exact .genesis hgenesis (hafter.trans hbefore)
  rw [if_neg hgenesis] at hrun
  obtain ⟨⟨⟩, checked, hoverwrites, hrun⟩ := bind_eq_ok.mp hrun
  obtain ⟨totals, accepted, htxs, hrun⟩ := bind_eq_ok.mp hrun
  obtain ⟨⟨⟩, finished, hfinish, hrun⟩ := bind_eq_ok.mp hrun
  cases hrun
  obtain ⟨looped, connected, hloop, htxs⟩ := bind_eq_ok.mp htxs
  obtain ⟨⟨⟩, coinbased, hcoinbases, htxs⟩ := bind_eq_ok.mp htxs
  cases htxs
  obtain ⟨coinbase, rest, hvtx, -⟩ := hchecked.coinbase
  obtain ⟨value, hvalue, hsubsidy⟩ := finishBlock_eq_ok hvtx hfinish
  have hafter := (finishBlock_keepsCoins env disk block index false miner _).eq hfinish
  have haccepted := (acceptCoinbases_keepsCoins env _ (firstOffset block)
    (rulesOf env block index false).justCheck).eq hcoinbases
  exact .block hgenesis hbegun hoverwrites hloop hvtx hvalue hsubsidy (hafter.trans haccepted)

/-- The coinbase of an accepted block pays no more than the subsidy and the exact fees, and these
stay in range. -/
theorem accepted_amounts {height : ℕ} {paid fees before after : ℤ} (hparams : CurrencyParams env)
    (hsubsidy : paid ≤ getBlockValue env (height + 1) (toAmount fees))
    (hpaid : paid ≤ env.check.maxMoney) (hfees : 0 ≤ fees) (hafter : 0 ≤ after)
    (hadded : after + fees ≤ before + paid) (hbefore : before ≤ totalSubsidy env height) :
    fees < 2 ^ 63 ∧ after ≤ totalSubsidy env (height + 1) := by
  have hsucc := totalSubsidy_succ hparams height
  have htotal := hparams.total (height + 1)
  have hmoney := hparams.maxMoney
  obtain ⟨hlow, -⟩ := subsidy_range hparams (height + 1)
  rw [getBlockValue_toAmount] at hsubsidy
  have hfits : subsidy env (height + 1) + fees < 2 ^ 63 := by
    by_contra hlarge
    have hwraps : toAmount (subsidy env (height + 1) + fees)
        = subsidy env (height + 1) + fees - 2 ^ 64 := by
      rw [toAmount, ← Int.sub_bmod_right]
      exact Int.bmod_eq_of_le (by omega) (by omega)
    omega
  rw [toAmount_of_fits ⟨by omega, hfits⟩] at hsubsidy
  exact ⟨by omega, by omega⟩

/-- A block that passes `CheckBlock`, whenever that was, and `ConnectBlock`. -/
structure Accepted (env : BlockEnv) (block : Block) (index : BlockIndex) (before after : World) :
    Prop where
  checked : ∃ checkPOW checkRoot start final,
    checkBlock env block checkPOW checkRoot start = .ok ⟨⟩ final
  connected : ∃ disk fees, connectBlock env disk block index false before = .ok fees after

theorem Accepted.genesis_coins {block : Block} {before after : World}
    (haccepted : Accepted env block index before after) (hgenesis : block.hash = env.genesisHash) :
    after.coinsOf = before.coinsOf := by
  obtain ⟨⟨_, _, _, _, hcheck⟩, disk, fees, hconnect⟩ := haccepted
  cases connectBlock_eq_ok (checkBlock_eq_ok env hcheck) hconnect with
  | genesis _ hsame => exact hsame
  | block hother => exact absurd hgenesis hother

/-- The states behind chains of accepted blocks, with their height.  Between two blocks
everything but the coins may change. -/
inductive AcceptedChain (env : BlockEnv) : ℕ → World → Prop where
  | genesis {block : Block} {index : BlockIndex} {before after : World}
      (hgenesis : block.hash = env.genesisHash) (hempty : ∀ txid, before.coinsOf txid = none)
      (haccepted : Accepted env block index before after) : AcceptedChain env 0 after
  | block {height : ℕ} {block : Block} {index : BlockIndex} {hash : Hash256}
      {last before after : World} (hchain : AcceptedChain env height last)
      (hsame : before.coinsOf = last.coinsOf) (hprev : index.prev = some (hash, height))
      (haccepted : Accepted env block index before after) : AcceptedChain env (height + 1) after

/-- In `ConnectBlock` of a block that is not the genesis block, the fees of the first
transactions have been added up. -/
def AddsUp (env : BlockEnv) (block : Block) (index : BlockIndex) (before : World)
    (txs : List SignedTx) (fees : ℤ) : Prop :=
  block.hash ≠ env.genesisHash ∧ ∃ miner begun checked totals next,
    beginBlock env block index false before = .ok miner begun
      ∧ checkOverwrites env block begun = .ok ⟨⟩ checked
      ∧ txs.foldlM (connectTx env index (rulesOf env block index false))
        ⟨0, 0, firstOffset block, []⟩ checked = .ok totals next
      ∧ totals.fees = fees

/-- What is said of the coins behind a chain. -/
structure Bounded (env : BlockEnv) (height : ℕ) (coinsOf : CoinsOf) : Prop where
  within : coinsOf.Within env.check.maxMoney
  value : coinsOf.value ≤ totalSubsidy env height

theorem totalSubsidy_le_succ (hparams : CurrencyParams env) (height : ℕ) :
    totalSubsidy env height ≤ totalSubsidy env (height + 1) := by
  rw [totalSubsidy_succ hparams]
  exact le_add_of_nonneg_right (subsidy_range hparams (height + 1)).1

/-- The transactions of an accepted block keep the bound, and their fees stay in range. -/
theorem Bounded.loop (hparams : CurrencyParams env) {height : ℕ} {block : Block}
    {coinbase : SignedTx} {rest : List SignedTx} {value : ℤ} {before after : World}
    (hchecked : TxsChecked env block) (hbounded : Bounded env height before.coinsOf)
    (hloop : block.vtx.foldlM (connectTx env index rules) ⟨0, 0, firstOffset block, []⟩ before
      = .ok totals after)
    (hvtx : block.vtx = coinbase :: rest) (hvalue : getValueOut env.check coinbase = .ok value)
    (hsubsidy : value ≤ getBlockValue env (height + 1) totals.fees) :
    Bounded env (height + 1) after.coinsOf
      ∧ feeTotal env index block.vtx before.coinsOf < 2 ^ 63 := by
  have hwithin := loop_within hchecked.values hbounded.within hloop
  obtain ⟨hfees, htotals⟩ := loop_fees
    (show (⟨0, 0, firstOffset block, []⟩ : Totals).fees = toAmount 0 from rfl) hloop
  have hout := getValueOut_eq_ok hvalue
  cases hnative : env.params.withNativeCurrency with
  | false =>
    have hzero : after.coinsOf.value = 0 := by
      rw [hparams.without hnative] at hwithin
      exact value_eq_zero hwithin
    have hnonneg := hbounded.within.value_nonneg
    have hvalue := hbounded.value
    have hgrows := totalSubsidy_le_succ hparams height
    rw [feeTotal_of_without hnative]
    exact ⟨⟨hwithin, by omega⟩, by decide⟩
  | true =>
    rw [show env.check.params.withNativeCurrency = true from hnative, if_pos rfl] at hout
    have hcoinbase : coinbaseValue block.vtx = value := by
      obtain ⟨first, others, hsplit, hfirst, hothers⟩ := hchecked.coinbase
      rw [hvtx] at hsplit
      cases hsplit
      rw [hvtx, coinbaseValue_cons, hfirst, if_pos rfl, coinbaseValue_of_none hothers, add_zero,
        hout]
    have hpaid : value ≤ env.check.maxMoney := by
      rw [hout]
      exact (hchecked.values coinbase (by rw [hvtx]; exact .head _)).total
    have hadded := loop_value hnative hchecked.values hbounded.within hloop
    rw [zero_add] at htotals
    rw [hcoinbase] at hadded
    rw [htotals] at hsubsidy
    obtain ⟨hfits, hvalue⟩ := accepted_amounts hparams hsubsidy hpaid hfees
      hwithin.value_nonneg hadded hbounded.value
    exact ⟨⟨hwithin, hvalue⟩, hfits⟩

/-- An accepted block keeps the bound, and adds up its fees as they are. -/
theorem Bounded.step (hparams : CurrencyParams env) {height : ℕ} {block : Block} {hash : Hash256}
    {before after : World} (hbounded : Bounded env height before.coinsOf)
    (hprev : index.prev = some (hash, height)) (haccepted : Accepted env block index before after) :
    Bounded env (height + 1) after.coinsOf
      ∧ ∀ txs rest fees, block.vtx = txs ++ rest → AddsUp env block index before txs fees →
        fees = feeTotal env index txs before.coinsOf
          ∧ FitsAmount (feeTotal env index txs before.coinsOf) := by
  obtain ⟨⟨_, _, _, _, hcheck⟩, disk, paid, hconnect⟩ := haccepted
  have hchecked := checkBlock_eq_ok env hcheck
  have hheight : index.height = height + 1 := by
    rw [BlockIndex.height, hprev]
  cases connectBlock_eq_ok hchecked hconnect with
  | genesis hgenesis hsame =>
    rw [hsame]
    refine ⟨⟨hbounded.within, hbounded.value.trans (totalSubsidy_le_succ hparams height)⟩, ?_⟩
    intro txs rest fees hsplit hadds
    exact absurd hgenesis hadds.1
  | block hgenesis hbegun hoverwrites hloop hvtx hvalue hsubsidy hafter =>
    rename_i miner begun checked connected totals value coinbase others
    have hbegin : begun.coinsOf = before.coinsOf :=
      (beginBlock_keepsCoins env block index false).eq hbegun
    have hsame : checked.coinsOf = before.coinsOf := by
      rw [(checkOverwrites_keepsCoins env block).eq hoverwrites, hbegin]
    rw [hheight] at hsubsidy
    rw [← hsame] at hbounded
    obtain ⟨hnext, hfits⟩ := hbounded.loop hparams hchecked hloop hvtx hvalue hsubsidy
    rw [hafter]
    refine ⟨hnext, ?_⟩
    rintro txs rest fees hsplit ⟨-, miner', begun', checked', front, next, hbegun', hchecked',
      hfront, rfl⟩
    rw [hbegun] at hbegun'
    cases hbegun'
    rw [hoverwrites] at hchecked'
    cases hchecked'
    rw [hsplit, List.foldlM_append] at hloop
    obtain ⟨middle, after', hfirst, hlast⟩ := bind_eq_ok.mp hloop
    rw [hfront] at hfirst
    cases hfirst
    obtain ⟨hnonneg, hfees⟩ := loop_fees
      (show (⟨0, 0, firstOffset block, []⟩ : Totals).fees = toAmount 0 from rfl) hfront
    rw [zero_add] at hfees
    obtain ⟨hrest, -⟩ := loop_fees hfees hlast
    rw [hsplit, feeTotal_append, ← loop_coins hfront] at hfits
    rw [← hsame]
    have hrange : FitsAmount (feeTotal env index txs checked.coinsOf) := ⟨by omega, by omega⟩
    exact ⟨hfees.trans (toAmount_of_fits hrange), hrange⟩

/-- Behind every chain of accepted blocks all unspent outputs together are worth no more than
the subsidies of its blocks, and in every block that is accepted next the fees are added up
without leaving the range of a signed 64-bit integer. -/
theorem currency_not_inflated (env : BlockEnv) (hparams : CurrencyParams env) (height : ℕ)
    (world : World) (hchain : AcceptedChain env height world) :
    world.coinsOf.value ≤ ∑ h ∈ Finset.Icc 1 height, getBlockValue env h 0
      ∧ ∀ (block : Block) (index : BlockIndex) (hash : Hash256) (before after : World),
        before.coinsOf = world.coinsOf → index.prev = some (hash, height) →
        Accepted env block index before after →
        ∀ txs rest fees, block.vtx = txs ++ rest → AddsUp env block index before txs fees →
          fees = feeTotal env index txs before.coinsOf
            ∧ -2 ^ 63 ≤ feeTotal env index txs before.coinsOf
            ∧ feeTotal env index txs before.coinsOf < 2 ^ 63 := by
  have hbounded : Bounded env height world.coinsOf := by
    induction hchain with
    | @genesis block index before after hgenesis hempty haccepted =>
      have hsame := haccepted.genesis_coins hgenesis
      have hnone : before.coinsOf = fun _ => none := funext hempty
      rw [hsame, hnone]
      exact ⟨nofun, le_of_eq (Finset.sum_eq_zero fun _ _ => rfl)⟩
    | block hchain hsame hprev haccepted ih =>
      rw [← hsame] at ih
      exact (ih.step hparams hprev haccepted).1
  refine ⟨hbounded.value, ?_⟩
  intro block index hash before after hsame hprev haccepted txs rest fees hsplit hadds
  rw [← hsame] at hbounded
  exact (hbounded.step hparams hprev haccepted).2 txs rest fees hsplit hadds

def rewardEnv : BlockEnv :=
  { sampleEnv with
    check := { guardedEnv [] with
      params := { ChainParams.defaults with anyoneCanMine := true, withNativeCurrency := true }
      maxMoney := 200000000000000000 }
    firstBlockReward := 200000000000000000 }

def paidCoinbase (hash : Hash256) (value : ℤ) : SignedTx :=
  { coinbaseTx [] with hash := hash, vout := [⟨value, keyHashScript 0x4e⟩] }

def paidBlock (hash : Hash256) (value : ℤ) : Block :=
  { coinbaseBlock [] (some Permission.Store.firstMiner) with
    hash := hash
    merkleRoot := hash + 7
    vtx := [paidCoinbase (hash + 7) value] }

def genesisIndex : BlockIndex :=
  { secondIndex with prev := none, hash := 1 }

def emptyWorld : World where
  state := {}
  chain := ⟨Permission.Store.newStore, .initialized .empty .empty, none⟩
  coinsOf := fun _ => none
  bestBlock := 0
  bannedBlocks := []

theorem rewardSubsidy (height : ℕ) :
    getBlockValue rewardEnv height 0 = if height = 1 then 200000000000000000 else 0 := by
  by_cases hfirst : height = 1
  · rw [hfirst]
    rfl
  have hreward : (if height = 1 ∧ 0 ≤ rewardEnv.firstBlockReward then rewardEnv.firstBlockReward
      else rewardEnv.initialBlockReward) = 0 := if_neg fun hheight => hfirst hheight.1
  unfold getBlockValue
  dsimp only
  rw [hreward, Int.zero_ediv]
  split
  · rfl
  rfl

theorem rewardParams : CurrencyParams rewardEnv where
  initial := by decide
  first := by decide
  maxMoney := by decide
  without := nofun
  total height := by
    rw [totalSubsidy, Finset.sum_congr rfl fun h _ => rewardSubsidy h, Finset.sum_ite_eq']
    split
    · decide
    decide

def succeeds {α : Type} : EStateM.Result Refusal World α → Bool
  | .ok _ _ => true
  | .error _ _ => false

theorem exists_of_succeeds {α : Type} {result : EStateM.Result Refusal World α}
    (hsucceeds : succeeds result = true) : ∃ value world, result = .ok value world := by
  cases result with
  | ok value world => exact ⟨value, world, rfl⟩
  | error refusal world => cases hsucceeds

theorem reward_accepted : ∃ world, AcceptedChain rewardEnv 1 world := by
  obtain ⟨_, _, hcheck⟩ := @exists_of_succeeds _ (checkBlock rewardEnv (paidBlock 1 0) true true
    emptyWorld) (by decide +kernel)
  obtain ⟨_, first, hfirst⟩ := @exists_of_succeeds _ (connectBlock rewardEnv Disk.sound
    (paidBlock 1 0) genesisIndex false emptyWorld) (by decide +kernel)
  obtain ⟨_, _, hcheck'⟩ := @exists_of_succeeds _ (checkBlock rewardEnv
    (paidBlock 2 200000000000000000) true true emptyWorld) (by decide +kernel)
  obtain ⟨_, second, hsecond⟩ := @exists_of_succeeds _ (connectBlock rewardEnv Disk.sound
    (paidBlock 2 200000000000000000) secondIndex false minedOnceWorld) (by decide +kernel)
  have haccepted : Accepted rewardEnv (paidBlock 1 0) genesisIndex emptyWorld first :=
    ⟨⟨_, _, _, _, hcheck⟩, ⟨_, _, hfirst⟩⟩
  have hsame : minedOnceWorld.coinsOf = first.coinsOf := (haccepted.genesis_coins rfl).symm
  exact ⟨second, .block (.genesis rfl (fun _ => rfl) haccepted) hsame rfl
    ⟨⟨_, _, _, _, hcheck'⟩, ⟨_, _, hsecond⟩⟩⟩

theorem reward_not_inflated : ∃ world, AcceptedChain rewardEnv 1 world
    ∧ world.coinsOf.value ≤ ∑ h ∈ Finset.Icc 1 1, getBlockValue rewardEnv h 0 := by
  obtain ⟨world, hchain⟩ := reward_accepted
  exact ⟨world, hchain, (currency_not_inflated rewardEnv rewardParams 1 world hchain).1⟩

end Amberchain.Validation
