import Amberchain.Validation.Checks

/-!
# What accepted blocks have passed

The conditions that `CheckBlock` and `ConnectBlock` leave behind when they succeed, and the
coins that they leave alone.
-/

namespace Amberchain.Validation

open Failing Interpreter Storage Transaction

variable (env : BlockEnv)

theorem refuseIf_eq_ok {condition : Bool} {level code : ℕ} {reason : String} {corruption : Bool}
    {world next : World}
    (hrun : refuseIf condition level code reason corruption world = .ok ⟨⟩ next) :
    condition = false ∧ next = world := by
  cases condition with
  | true => cases hrun
  | false =>
    cases hrun
    exact ⟨rfl, rfl⟩

theorem of_refuseIf_bind {α : Type} {condition : Bool} {level code : ℕ} {reason : String}
    {corruption : Bool} {rest : Unit → BlockM α} {world next : World} {result : α}
    (hrun : (refuseIf condition level code reason corruption >>= rest) world = .ok result next) :
    condition = false ∧ rest ⟨⟩ world = .ok result next := by
  obtain ⟨⟨⟩, middle, hfirst, hrest⟩ := bind_eq_ok.mp hrun
  obtain ⟨hcondition, rfl⟩ := refuseIf_eq_ok hfirst
  exact ⟨hcondition, hrest⟩

/-- What `CheckTransaction` says of the output values. -/
structure ValuesChecked (tx : SignedTx) : Prop where
  values : ∀ out ∈ tx.vout, 0 ≤ out.value ∧ out.value ≤ env.check.maxMoney
  total : (tx.vout.map TxOut.value).sum ≤ env.check.maxMoney

theorem checkValues_eq_ok {outs : List TxOut} {total : ℤ} {world next : World}
    (hne : outs ≠ []) (hrun : checkValues env outs total world = .ok ⟨⟩ next) :
    (∀ out ∈ outs, 0 ≤ out.value ∧ out.value ≤ env.check.maxMoney)
      ∧ total + (outs.map TxOut.value).sum ≤ env.check.maxMoney := by
  induction outs generalizing total with
  | nil => exact absurd rfl hne
  | cons out outs ih =>
    obtain ⟨hnegative, hrun⟩ := of_refuseIf_bind hrun
    obtain ⟨hlarge, hrun⟩ := of_refuseIf_bind hrun
    obtain ⟨hrange, hrun⟩ := of_refuseIf_bind hrun
    rw [decide_eq_false_iff_not, not_lt] at hnegative hlarge
    have htotal : 0 ≤ total + out.value ∧ total + out.value ≤ env.check.maxMoney := by
      rw [Bool.not_eq_false'] at hrange
      exact of_decide_eq_true hrange
    cases outs with
    | nil =>
      rw [List.map_singleton, List.sum_singleton]
      exact ⟨List.forall_mem_singleton.mpr ⟨hnegative, hlarge⟩, htotal.2⟩
    | cons second rest =>
      obtain ⟨hvalues, hsum⟩ := ih (List.cons_ne_nil second rest) hrun
      rw [List.map_cons, List.sum_cons, ← add_assoc]
      exact ⟨List.forall_mem_cons.mpr ⟨⟨hnegative, hlarge⟩, hvalues⟩, hsum⟩

theorem checkTransaction_eq_ok {tx : SignedTx} {world next : World}
    (hrun : checkTransaction env tx world = .ok ⟨⟩ next) : ValuesChecked env tx := by
  obtain ⟨-, hrun⟩ := of_refuseIf_bind hrun
  obtain ⟨hempty, hrun⟩ := of_refuseIf_bind hrun
  obtain ⟨-, hrun⟩ := of_refuseIf_bind hrun
  obtain ⟨⟨⟩, middle, hvalues, -⟩ := bind_eq_ok.mp hrun
  obtain ⟨hwithin, htotal⟩ := checkValues_eq_ok env (List.isEmpty_eq_false_iff.mp hempty) hvalues
  rw [zero_add] at htotal
  exact ⟨hwithin, htotal⟩

/-- What `CheckBlock` says of the transactions of a block. -/
structure TxsChecked (block : Block) : Prop where
  coinbase : ∃ coinbase rest, block.vtx = coinbase :: rest ∧ coinbase.isCoinBase = true
    ∧ ∀ tx ∈ rest, tx.isCoinBase = false
  values : ∀ tx ∈ block.vtx, ValuesChecked env tx

theorem forM_eq_ok {α : Type} {items : List α} {body : α → BlockM Unit} {world final : World}
    (hrun : items.forM body world = .ok ⟨⟩ final) :
    ∀ item ∈ items, ∃ before after, body item before = .ok ⟨⟩ after := by
  induction items generalizing world with
  | nil => exact nofun
  | cons item items ih =>
    obtain ⟨⟨⟩, middle, hfirst, hrest⟩ := bind_eq_ok.mp hrun
    exact List.forall_mem_cons.mpr ⟨⟨world, middle, hfirst⟩, ih hrest⟩

theorem checkBlock_eq_ok {block : Block} {checkPOW checkRoot : Bool} {world final : World}
    (hrun : checkBlock env block checkPOW checkRoot world = .ok ⟨⟩ final) :
    TxsChecked env block := by
  obtain ⟨⟨⟩, shaped, hshape, -⟩ := bind_eq_ok.mp hrun
  obtain ⟨⟨⟩, _, -, hshape⟩ := bind_eq_ok.mp hshape
  obtain ⟨⟨⟩, _, -, hshape⟩ := bind_eq_ok.mp hshape
  obtain ⟨-, hshape⟩ := of_refuseIf_bind hshape
  obtain ⟨hfirst, hshape⟩ := of_refuseIf_bind hshape
  obtain ⟨hothers, hshape⟩ := of_refuseIf_bind hshape
  constructor
  · cases hvtx : block.vtx with
    | nil =>
      rw [hvtx] at hfirst
      cases hfirst
    | cons coinbase rest =>
      rw [hvtx] at hfirst hothers
      rw [Bool.not_eq_false'] at hfirst
      refine ⟨coinbase, rest, rfl, hfirst, fun tx hmem => ?_⟩
      exact Bool.eq_false_iff.mpr (List.any_eq_false.mp hothers tx hmem)
  intro tx hmem
  obtain ⟨_, _, htx⟩ := forM_eq_ok hshape tx hmem
  exact checkTransaction_eq_ok env htx

def outputValue (tx : SignedTx) : ℤ :=
  (tx.vout.map TxOut.value).sum

def inputSum (coinsOf : CoinsOf) (tx : SignedTx) : ℤ :=
  (tx.vin.map (spentValue coinsOf)).sum

variable {env} {index : BlockIndex} {coinsOf : CoinsOf} {tx : SignedTx}

/-- Without a native currency nothing is counted. -/
theorem getValueOut_eq_ok {check : CheckEnv} {value : ℤ} (hrun : getValueOut check tx = .ok value) :
    value = if check.params.withNativeCurrency then outputValue tx else 0 := by
  unfold getValueOut at hrun
  cases hnative : check.params.withNativeCurrency with
  | false =>
    rw [hnative] at hrun
    cases hrun
    rfl
  | true =>
    rw [hnative] at hrun
    have hsum := @Folding.foldlM_sum _ _ _ _ _ _ TxOut.value (fun total amount => total = amount)
      (fun {total out next amount} heq hstep => by
        split at hstep
        · cases hstep
          rw [heq]
        · cases hstep) _ _ _ _ (rfl : (0 : ℤ) = 0) hrun
    rw [zero_add] at hsum
    exact hsum

theorem scanInput_eq_ok {check : CheckEnv} {scriptChecks : Bool} {scan next : InputScan}
    {input : TxIn}
    (hrun : scanInput check (coinsView index coinsOf) scriptChecks scan input = .ok next) :
    next.valueIn = scan.valueIn + spentValue coinsOf input := by
  unfold scanInput at hrun
  cases hspent : spentOutput (coinsView index coinsOf) input.prevout with
  | none =>
    rw [hspent] at hrun
    cases hrun
  | some found =>
    obtain ⟨coins, out⟩ := found
    have hvalue : spentValue coinsOf input = out.value := by
      obtain ⟨coins', hcoins, hout⟩ := Option.bind_eq_some_iff.mp hspent
      obtain ⟨live, hlive, rfl⟩ := Option.map_eq_some_iff.mp hcoins
      obtain ⟨out', hget, heq⟩ := Option.bind_eq_some_iff.mp hout
      cases heq
      rw [spentValue, hlive]
      dsimp only
      rw [hget]
      rfl
    rw [hspent] at hrun
    dsimp only at hrun
    rw [hvalue]
    split at hrun
    · cases hrun
    split at hrun
    · cases hrun
    split at hrun
    · obtain ⟨skip, -, hnext⟩ := Folding.bind_eq_ok.mp hrun
      cases hnext
      rfl
    cases hrun
    rfl

/-- A transaction that passes `CheckInputs` spends no less than it pays, and its fee is in
range. -/
theorem checkInputs_eq_ok {check : CheckEnv} {scriptChecks queue : Bool} {flags : VerifyFlags}
    {queued : List ScriptCheck} (hcoinbase : tx.isCoinBase = false)
    (hrun : checkInputs check (coinsView index coinsOf) tx scriptChecks flags queue = .ok queued) :
    ∃ value, getValueOut check tx = .ok value ∧ value ≤ inputSum coinsOf tx
      ∧ inputSum coinsOf tx - value ≤ check.maxMoney := by
  unfold checkInputs at hrun
  rw [hcoinbase, if_neg Bool.false_ne_true] at hrun
  split at hrun
  · cases hrun
  obtain ⟨scan, hscan, hrun⟩ := Folding.bind_eq_ok.mp hrun
  obtain ⟨value, hvalue, hrun⟩ := Folding.bind_eq_ok.mp hrun
  have hsum := @Folding.foldlM_sum _ _ _ _ _ _ (spentValue coinsOf)
    (fun (scan : InputScan) amount => scan.valueIn = amount)
    (fun {scan input next amount} heq hstep => by rw [scanInput_eq_ok hstep, heq]) _ _ _ _
    (rfl : (0 : ℤ) = 0) hscan
  rw [zero_add] at hsum
  have hscanned : scan.valueIn = inputSum coinsOf tx := hsum
  rw [hscanned] at hrun
  split at hrun
  · cases hrun
  rename_i hbelow
  split at hrun
  · cases hrun
  rename_i hrange
  have hfee : 0 ≤ inputSum coinsOf tx - value ∧ inputSum coinsOf tx - value ≤ check.maxMoney :=
    of_decide_eq_true (not_not.mp hrange)
  exact ⟨value, hvalue, not_lt.mp hbelow, hfee.2⟩

abbrev KeepsCoins {α : Type} (program : BlockM α) : Prop :=
  ∀ coinsOf, Preserves (fun world => world.coinsOf = coinsOf) (fun _ => True) program

theorem KeepsCoins.eq {α : Type} {program : BlockM α} {value : α} {world next : World}
    (hkeeps : KeepsCoins program) (hrun : program world = .ok value next) :
    next.coinsOf = world.coinsOf := by
  have hnext := hkeeps world.coinsOf world rfl
  rwa [hrun] at hnext

theorem coins_surviveChanges (coinsOf : CoinsOf) :
    SurvivesChanges (fun _ _ => True) (fun world => world.coinsOf = coinsOf) (fun _ => True) where
  throw := fun _ _ => trivial
  refuse := fun _ _ _ => trivial
  bannedBlocks := fun _ _ hworld => hworld
  chain := fun _ _ _ hworld => hworld

theorem coins_surviveChecks (coinsOf : CoinsOf) :
    SurvivesChecks (fun world => world.coinsOf = coinsOf) (fun _ => True) :=
  (coins_surviveChanges coinsOf).toSurvivesChecks

variable (env)

theorem setBestBlock_keepsCoins (hash : Hash256) : KeepsCoins (setBestBlock hash) :=
  fun _ => Preserves.modify fun _ hworld => hworld

theorem checkOverwrites_keepsCoins (block : Block) : KeepsCoins (checkOverwrites env block) :=
  fun coinsOf => Preserves.get.bind fun _ =>
    keeps_refuseIf (coins_surviveChecks coinsOf)

theorem beginBlock_keepsCoins (block : Block) (index : BlockIndex) (justCheck : Bool) :
    KeepsCoins (beginBlock env block index justCheck) :=
  fun coinsOf => beginBlock_keeps (coins_surviveChanges coinsOf) block index justCheck
    (fun _ => trivial) fun _ => trivial

theorem acceptCoinbases_keepsCoins (txs : List SignedTx) (offset : ℤ) (justCheck : Bool) :
    KeepsCoins (txs.forM fun tx => acceptCoinbase env tx offset justCheck) :=
  fun coinsOf => Preserves.forM fun tx _ =>
    acceptCoinbase_keeps (coins_surviveChanges coinsOf) tx offset justCheck fun _ => trivial

theorem acceptTx_keepsCoins (tx : SignedTx) (offset : ℤ) (justCheck : Bool) :
    KeepsCoins (acceptTx env tx offset justCheck) :=
  fun coinsOf => acceptTx_keeps (coins_surviveChanges coinsOf) tx offset justCheck fun _ => trivial

theorem commitChain_keepsCoins (disk : Disk) (block : Block) (miner : Hash160) (genesis : Bool) :
    KeepsCoins (commitChain env disk block miner genesis) := by
  intro coinsOf
  apply Preserves.bind (keeps_refuseIf (coins_surviveChecks coinsOf))
  intro _
  refine Preserves.get_bind fun world hworld => ?_
  dsimp only
  split
  · exact fun _ _ => hworld
  exact fun _ _ => trivial

theorem finishBlock_keepsCoins (disk : Disk) (block : Block) (index : BlockIndex)
    (justCheck : Bool) (miner : Hash160) (totals : Totals) :
    KeepsCoins (finishBlock env disk block index justCheck miner totals) := by
  intro coinsOf
  have hchecks := coins_surviveChecks coinsOf
  apply Preserves.bind (checkCoinbaseValue_keeps hchecks block index totals)
  intro _
  apply keeps_ite (Preserves.pure ())
  apply Preserves.bind (keeps_ite (writeUndo_keeps hchecks disk index) (Preserves.pure ()))
  intro _
  apply Preserves.bind (writeTxIndex_keeps hchecks disk)
  intro _
  apply Preserves.bind (commitChain_keepsCoins env disk block miner false coinsOf)
  exact fun _ => setBestBlock_keepsCoins index.hash coinsOf

theorem connectGenesis_keepsCoins (disk : Disk) (block : Block) (index : BlockIndex)
    (miner : Hash160) : KeepsCoins (connectGenesis env disk block index miner) := by
  intro coinsOf
  apply Preserves.bind
  · exact Preserves.foldlM (fun offset tx _ =>
      connectGenesisTx_keeps (coins_surviveChanges coinsOf) offset tx fun _ => trivial) _
  intro _
  apply Preserves.bind (commitChain_keepsCoins env disk block miner true coinsOf)
  intro _
  exact (setBestBlock_keepsCoins index.hash coinsOf).bind fun _ => Preserves.pure _

variable {env} {rules : Rules} {totals final : Totals} {world next : World}

theorem updateCoins_eq_ok (hrun : updateCoins env index tx world = .ok ⟨⟩ next) :
    ∃ spent undos, CoinsOf.spendAll (CoinsOf.spentBy (versioned tx)) world.coinsOf
        = some (spent, undos) ∧ next.coinsOf = Function.update spent tx.hash
        (Coins.fromTx env.unspendable (versioned tx) index.height).live := by
  obtain ⟨_, _, hget, hrun⟩ := bind_eq_ok.mp hrun
  cases hget
  cases hspend : CoinsOf.spendAll (CoinsOf.spentBy (versioned tx)) world.coinsOf with
  | none =>
    rw [hspend] at hrun
    cases hrun
  | some found =>
    obtain ⟨spent, undos⟩ := found
    rw [hspend] at hrun
    cases hrun
    exact ⟨spent, undos, rfl, rfl⟩

theorem valueOut_eq_ok {value : ℤ} (hrun : valueOut env tx world = .ok value next) :
    getValueOut env.check tx = .ok value ∧ next = world := by
  unfold valueOut at hrun
  cases hout : getValueOut env.check tx with
  | ok found =>
    rw [hout] at hrun
    cases hrun
    exact ⟨rfl, rfl⟩
  | error err =>
    rw [hout] at hrun
    cases hrun

/-- The checks of a transaction that spends leave the coins, and add its fee. -/
theorem checkSpending_eq_ok (hcoinbase : tx.isCoinBase = false)
    (hrun : checkSpending env index rules tx totals world = .ok final next) :
    next.coinsOf = world.coinsOf ∧ ∃ value, getValueOut env.check tx = .ok value
      ∧ value ≤ inputSum world.coinsOf tx
      ∧ final.fees = toAmount (totals.fees + (valueIn env world.coinsOf tx - value)) := by
  obtain ⟨_, _, hget, hrun⟩ := bind_eq_ok.mp hrun
  cases hget
  obtain ⟨-, hrun⟩ := of_refuseIf_bind hrun
  obtain ⟨-, hrun⟩ := of_refuseIf_bind hrun
  obtain ⟨value, valued, hvalue, hrun⟩ := bind_eq_ok.mp hrun
  obtain ⟨queued, checked, hinputs, hrun⟩ := bind_eq_ok.mp hrun
  obtain ⟨⟨⟩, accepted, haccepted, hrun⟩ := bind_eq_ok.mp hrun
  cases hrun
  obtain ⟨hout, rfl⟩ := valueOut_eq_ok hvalue
  have hchecked : (∃ queued, checkInputs (env.checkEnv valued.chain)
      (coinsView index valued.coinsOf) tx rules.scriptChecks rules.flags env.scriptCheckThreads
        = .ok queued) ∧ checked = valued := by
    obtain ⟨_, _, hget, hinputs⟩ := bind_eq_ok.mp hinputs
    cases hget
    cases hresult : checkInputs (env.checkEnv valued.chain) (coinsView index valued.coinsOf) tx
        rules.scriptChecks rules.flags env.scriptCheckThreads with
    | ok found =>
      rw [hresult] at hinputs
      cases hinputs
      exact ⟨⟨_, rfl⟩, rfl⟩
    | error err =>
      rw [hresult] at hinputs
      cases err <;> cases hinputs
  obtain ⟨⟨_, hchecked⟩, rfl⟩ := hchecked
  refine ⟨(acceptTx_keepsCoins env tx _ _).eq haccepted, value, hout, ?_, rfl⟩
  obtain ⟨value', hvalue', hle, -⟩ := checkInputs_eq_ok hcoinbase hchecked
  have hsame : getValueOut env.check tx = .ok value' := hvalue'
  rw [hout] at hsame
  cases hsame
  exact hle

theorem finishBlock_eq_ok {disk : Disk} {block : Block} {justCheck : Bool} {miner : Hash160}
    {coinbase : SignedTx} {rest : List SignedTx} (hvtx : block.vtx = coinbase :: rest)
    (hrun : finishBlock env disk block index justCheck miner totals world = .ok ⟨⟩ next) :
    ∃ value, getValueOut env.check coinbase = .ok value
      ∧ value ≤ getBlockValue env index.height totals.fees := by
  obtain ⟨⟨⟩, _, hcoinbase, -⟩ := bind_eq_ok.mp hrun
  obtain ⟨⟨⟩, _, hfirst, -⟩ := bind_eq_ok.mp hcoinbase
  rw [hvtx] at hfirst
  obtain ⟨value, _, hvalue, hsubsidy⟩ := bind_eq_ok.mp hfirst
  obtain ⟨hout, rfl⟩ := valueOut_eq_ok hvalue
  obtain ⟨hle, -⟩ := refuseIf_eq_ok hsubsidy
  rw [decide_eq_false_iff_not, not_lt] at hle
  exact ⟨value, hout, hle⟩

def coinsAfter (env : BlockEnv) (index : BlockIndex) (tx : SignedTx) (coinsOf : CoinsOf) :
    CoinsOf :=
  match CoinsOf.spendAll (CoinsOf.spentBy (versioned tx)) coinsOf with
  | none => coinsOf
  | some (spent, _) =>
    Function.update spent tx.hash (Coins.fromTx env.unspendable (versioned tx) index.height).live

/-- The fee that `ConnectBlock` counts for a transaction, without bounds. -/
def txFee (env : BlockEnv) (tx : SignedTx) (coinsOf : CoinsOf) : ℤ :=
  if tx.isCoinBase || !env.params.withNativeCurrency then 0
  else inputSum coinsOf tx - outputValue tx

/-- What a transaction that is connected has done: its outputs are spent and created, and its
fee, which is not negative, is added in 64 bits. -/
structure TxConnected (env : BlockEnv) (index : BlockIndex) (tx : SignedTx) (world next : World)
    (totals final : Totals) : Prop where
  spent : ∃ spent undos,
    CoinsOf.spendAll (CoinsOf.spentBy (versioned tx)) world.coinsOf = some (spent, undos)
  coins : next.coinsOf = coinsAfter env index tx world.coinsOf
  fee : 0 ≤ txFee env tx world.coinsOf
  fees : ∀ exact, totals.fees = toAmount exact →
    final.fees = toAmount (exact + txFee env tx world.coinsOf)

theorem connectTx_eq_ok (hrun : connectTx env index rules totals tx world = .ok final next) :
    TxConnected env index tx world next totals final := by
  obtain ⟨-, hrun⟩ := of_refuseIf_bind hrun
  obtain ⟨checked, middle, hchecked, hrun⟩ := bind_eq_ok.mp hrun
  obtain ⟨⟨⟩, updated, hupdated, hrun⟩ := bind_eq_ok.mp hrun
  cases hrun
  obtain ⟨spent, undos, hspent, hcoins⟩ := updateCoins_eq_ok hupdated
  have hafter : middle.coinsOf = world.coinsOf → next.coinsOf
      = coinsAfter env index tx world.coinsOf := by
    intro hsame
    rw [hcoins, coinsAfter, ← hsame, hspent]
  cases hcoinbase : tx.isCoinBase with
  | true =>
    rw [hcoinbase] at hchecked
    cases hchecked
    have hfee : txFee env tx world.coinsOf = 0 := by
      rw [txFee, hcoinbase, Bool.true_or, if_pos rfl]
    refine ⟨⟨spent, undos, hspent⟩, hafter rfl, le_of_eq hfee.symm, fun exact hexact => ?_⟩
    rw [hfee, add_zero]
    exact hexact
  | false =>
    rw [hcoinbase] at hchecked
    obtain ⟨hsame, value, hvalue, hle, hfees⟩ := checkSpending_eq_ok hcoinbase hchecked
    have hout := getValueOut_eq_ok hvalue
    have hspent' : ∃ spent undos,
        CoinsOf.spendAll (CoinsOf.spentBy (versioned tx)) world.coinsOf = some (spent, undos) :=
      ⟨spent, undos, hsame ▸ hspent⟩
    cases hnative : env.params.withNativeCurrency with
    | false =>
      have hfee : txFee env tx world.coinsOf = 0 := by
        rw [txFee, hnative, Bool.not_false, Bool.or_true, if_pos rfl]
      rw [show env.check.params.withNativeCurrency = false from hnative,
        if_neg Bool.false_ne_true] at hout
      refine ⟨hspent', hafter hsame, le_of_eq hfee.symm, fun exact hexact => ?_⟩
      have hin : valueIn env world.coinsOf tx = 0 := by
        rw [valueIn, hnative, Bool.not_false, if_pos rfl]
      rw [hfees, hfee, hout, hin, sub_zero, add_zero, add_zero]
      rw [hexact]
      exact Int.bmod_bmod
    | true =>
      have hfee : txFee env tx world.coinsOf = inputSum world.coinsOf tx - outputValue tx := by
        rw [txFee, hcoinbase, hnative, Bool.not_true, Bool.or_false, if_neg Bool.false_ne_true]
      rw [show env.check.params.withNativeCurrency = true from hnative, if_pos rfl] at hout
      refine ⟨hspent', hafter hsame, ?_, fun exact hexact => ?_⟩
      · rw [hfee, ← hout]
        exact sub_nonneg.mpr hle
      have hin : valueIn env world.coinsOf tx = toAmount (inputSum world.coinsOf tx) := by
        rw [valueIn, hnative]
        rfl
      rw [hfees, hfee, hout, hin]
      rw [hexact, toAmount, toAmount, toAmount, Int.bmod_add_bmod,
        ← Int.add_bmod_bmod, Int.bmod_sub_bmod, Int.add_bmod_bmod]
      rfl

end Amberchain.Validation
