import Amberchain.Interpreter.CheckInputs
import Amberchain.Script.Solver

/-!
# Standard inputs

`AreInputsStandard` takes the inputs of a transaction one after the other, and returns at the first
one that spends the hash of a script which is no template.  So this input decides for those behind
it.
-/

namespace Amberchain

namespace Script

def MAX_P2SH_SIGOPS : ℕ := 15

/-- The loop of `GetSigOpCount`, with the opcode before; it stops where no operation can be
read. -/
def sigOpsFrom (fAccurate : Bool) : ℕ → Byte → Bytes → ℕ
  | 0, _, _ => 0
  | fuel + 1, lastOpcode, script =>
    match getOp script with
    | none => 0
    | some op =>
      let count :=
        if op.opcode = OP_CHECKSIG ∨ op.opcode = Interpreter.OP_CHECKSIGVERIFY then 1
        else if op.opcode = OP_CHECKMULTISIG
            ∨ op.opcode = Interpreter.OP_CHECKMULTISIGVERIFY then
          if fAccurate ∧ OP_1 ≤ lastOpcode ∧ lastOpcode ≤ OP_16 then decodeOpN lastOpcode else 20
        else 0
      count + sigOpsFrom fAccurate fuel op.opcode op.rest

def getSigOpCount (fAccurate : Bool) (script : Bytes) : ℕ :=
  sigOpsFrom fAccurate script.length OP_INVALIDOPCODE script

end Script

namespace Interpreter

open Script Storage Transaction

/-- What the check of inputs reads: for the scripts, and for their types. -/
structure InputsEnv where
  eval : EvalEnv
  standard : StandardEnv

/-- `BaseSignatureChecker`, which accepts no signature. -/
def InputsEnv.baseChecker (env : InputsEnv) : EvalEnv :=
  { env.eval with checkSig := fun _ _ _ => false }

def VerifyFlags.none : VerifyFlags :=
  { VerifyFlags.mandatory with p2sh := false }

/-- How the round for an input ends: a failed assertion, `return false`, `return` with the count of
signature operations, or the next round. -/
inductive InputVerdict where
  | aborts
  | refused
  | decides (standard : Bool)
  | passed
deriving DecidableEq

variable (env : InputsEnv) (view : CoinsView)

/-- `GetOutputFor`, whose assertion fails without the coins. -/
def getOutputFor (prevout : OutPoint) : Option TxOut :=
  match view.coins prevout.hash with
  | none => none
  | some coins => if coins.isAvailable prevout.n then coins.vout[prevout.n]? else none

/-- The type of an output, and how many arguments its input needs; `none` for a negative number. -/
def argsExpected (type : TxnOutType) (script : Bytes) : TxnOutType × Option ℕ :=
  match type with
  | .pubkeyHash => (type, some 2)
  | .scriptHash => (type, some 1)
  | .pubkey => (type, some 1)
  | .multisig =>
    let solved := solver env.standard script
    (solved.type, scriptSigArgsExpected solved.type solved.solutions)
  | .nonstandard => (type, Option.none)
  | .nullData => (type, Option.none)

def checkArgs (stack : List Bytes) (nArgsExpected : ℕ) : InputVerdict :=
  if stack.length ≠ nArgsExpected then .refused else .passed

def checkRedeemScript (stack : List Bytes) (nArgsExpected : ℕ) : InputVerdict :=
  match stack with
  | [] => .refused
  | subscript :: _ =>
    let solved := solver env.standard subscript
    if solved.ok then
      match scriptSigArgsExpected solved.type solved.solutions with
      | none => .refused
      | some tmpExpected => checkArgs stack (nArgsExpected + tmpExpected)
    else .decides (getSigOpCount true subscript ≤ MAX_P2SH_SIGOPS)

/-- The loop of `AreInputsStandard` for one input. -/
def checkInput (input : TxIn) : InputVerdict :=
  match getOutputFor view input.prevout with
  | none => .aborts
  | some prev =>
    match isStandard env.standard prev.scriptPubKey with
    | none => .refused
    | some whichType =>
      match argsExpected env whichType prev.scriptPubKey with
      | (_, none) => .refused
      | (whichType, some nArgsExpected) =>
        match evalScript env.baseChecker VerifyFlags.none [] input.scriptSig with
        | .error _ => .refused
        | .ok evaluated =>
          if whichType = .scriptHash then checkRedeemScript env evaluated.stack nArgsExpected
          else checkArgs evaluated.stack nArgsExpected

/-- The loop of `AreInputsStandard`, with `none` for a failed assertion. -/
def inputsStandardFrom : List TxIn → Option Bool
  | [] => some true
  | input :: inputs =>
    match checkInput env view input with
    | .aborts => none
    | .refused => some false
    | .decides standard => some standard
    | .passed => inputsStandardFrom inputs

def areInputsStandard (tx : Tx) : Option Bool :=
  if tx.isCoinBase then some true else inputsStandardFrom env view tx.vin

/-- The round for an input ends well. -/
def InputVerdict.Good (verdict : InputVerdict) : Prop :=
  verdict = .passed ∨ verdict = .decides true

/-- An input ends the loop with `true`, and one behind it is not standard. -/
def ExemptsLater (inputs : List TxIn) : Prop :=
  ∃ before input after, inputs = before ++ input :: after
    ∧ (∀ earlier ∈ before, checkInput env view earlier = .passed)
    ∧ checkInput env view input = .decides true
    ∧ ∃ later ∈ after, ¬(checkInput env view later).Good

variable {env view}

theorem inputsStandardFrom_singleton {input : TxIn} :
    inputsStandardFrom env view [input] = some true ↔ (checkInput env view input).Good := by
  rw [inputsStandardFrom, InputVerdict.Good]
  cases checkInput env view input with
  | aborts => simp
  | refused => simp
  | decides standard => simp
  | passed => simp [inputsStandardFrom]

/-- The loop comes to `true` at its end, or at an input that decides. -/
theorem inputsStandardFrom_iff {inputs : List TxIn} : inputsStandardFrom env view inputs = some true
      ↔ (∀ input ∈ inputs, (checkInput env view input).Good) ∨ ExemptsLater env view inputs := by
  induction inputs with
  | nil => exact ⟨fun _ => .inl nofun, fun _ => rfl⟩
  | cons input inputs ih =>
    rw [inputsStandardFrom, List.forall_mem_cons]
    have hfirst (hexempts : ExemptsLater env view (input :: inputs)) :
        checkInput env view input = .passed ∨ checkInput env view input = .decides true := by
      obtain ⟨before, deciding, after, hsplit, hbefore, hdecides, -⟩ := hexempts
      cases before with
      | nil =>
        cases hsplit
        exact .inr hdecides
      | cons first before =>
        cases hsplit
        exact .inl (hbefore _ (.head _))
    cases hverdict : checkInput env view input with
    | aborts =>
      rw [hverdict] at hfirst
      refine ⟨nofun, ?_⟩
      rintro (⟨hgood, -⟩ | hexempts)
      · exact absurd hgood (by simp [InputVerdict.Good])
      · exact absurd (hfirst hexempts) (by simp)
    | refused =>
      rw [hverdict] at hfirst
      refine ⟨nofun, ?_⟩
      rintro (⟨hgood, -⟩ | hexempts)
      · exact absurd hgood (by simp [InputVerdict.Good])
      · exact absurd (hfirst hexempts) (by simp)
    | decides standard =>
      rw [Option.some.injEq]
      constructor
      · rintro rfl
        by_cases hrest : ∀ later ∈ inputs, (checkInput env view later).Good
        · exact .inl ⟨.inr rfl, hrest⟩
        simp only [not_forall] at hrest
        obtain ⟨later, hmem, hbad⟩ := hrest
        exact .inr ⟨[], input, inputs, rfl, nofun, hverdict, later, hmem, hbad⟩
      rintro (⟨hgood, -⟩ | hexempts)
      · obtain hpassed | hdecides := hgood
        · cases hpassed
        · exact InputVerdict.decides.inj hdecides
      obtain hpassed | hdecides := hfirst hexempts
      · rw [hverdict] at hpassed
        cases hpassed
      rw [hverdict] at hdecides
      exact InputVerdict.decides.inj hdecides
    | passed =>
      rw [ih]
      refine or_congr ⟨fun hrest => ⟨.inl rfl, hrest⟩, And.right⟩ ?_
      constructor
      · rintro ⟨before, deciding, after, rfl, hbefore, hdecides, hlater⟩
        exact ⟨input :: before, deciding, after, rfl,
          List.forall_mem_cons.mpr ⟨hverdict, hbefore⟩, hdecides, hlater⟩
      rintro ⟨before, deciding, after, hsplit, hbefore, hdecides, hlater⟩
      cases before with
      | nil =>
        cases hsplit
        rw [hverdict] at hdecides
        cases hdecides
      | cons first before =>
        cases hsplit
        exact ⟨before, deciding, after, rfl,
          fun earlier hmem => hbefore earlier (.tail _ hmem), hdecides, hlater⟩

theorem not_good_of_exempts {inputs : List TxIn} (hexempts : ExemptsLater env view inputs) :
    ¬∀ input ∈ inputs, (checkInput env view input).Good := by
  obtain ⟨-, -, after, rfl, -, -, later, hmem, hbad⟩ := hexempts
  intro hgood
  exact hbad (hgood later (List.mem_append_right _ (.tail _ hmem)))

/-- The inputs of a transaction are standard exactly when each is when it is the only one, unless
an input with a redeem script that is no template decides for one behind it. -/
theorem areInputsStandard_conjunction_iff (env : InputsEnv) (view : CoinsView) (tx : Tx)
    (hnull : tx.isCoinBase = false → ∀ input ∈ tx.vin, input.prevout.isNull = false) :
    (areInputsStandard env view tx = some true
      ↔ ∀ input ∈ tx.vin, areInputsStandard env view { tx with vin := [input] } = some true)
      ↔ ¬ExemptsLater env view tx.vin := by
  cases hcoinbase : tx.isCoinBase with
  | true =>
    obtain ⟨input, hvin⟩ : ∃ input, tx.vin = [input] := by
      rw [Tx.isCoinBase] at hcoinbase
      split at hcoinbase
      · exact ⟨_, by assumption⟩
      · cases hcoinbase
    have hsame : ({ tx with vin := [input] } : Tx) = tx := by
      rw [← hvin]
    have htrue : areInputsStandard env view tx = some true := by
      rw [areInputsStandard, if_pos hcoinbase]
    constructor
    · rintro - ⟨before, deciding, after, hsplit, -, -, later, hlater, -⟩
      rw [hvin] at hsplit
      have hlength := congrArg List.length hsplit
      have hpositive := List.length_pos_of_mem hlater
      simp only [List.length_append, List.length_cons, List.length_nil] at hlength
      omega
    rintro -
    refine ⟨fun _ other hmem => ?_, fun _ => htrue⟩
    rw [hvin] at hmem
    obtain rfl := List.mem_singleton.mp hmem
    rw [hsame]
    exact htrue
  | false =>
    have halone {input : TxIn} (hmem : input ∈ tx.vin) :
        areInputsStandard env view { tx with vin := [input] } = some true
          ↔ (checkInput env view input).Good := by
      have hplain : ({ tx with vin := [input] } : Tx).isCoinBase = false :=
        hnull hcoinbase input hmem
      rw [areInputsStandard, hplain, if_neg Bool.false_ne_true, inputsStandardFrom_singleton]
    have hall : (∀ input ∈ tx.vin,
        areInputsStandard env view { tx with vin := [input] } = some true)
          ↔ ∀ input ∈ tx.vin, (checkInput env view input).Good :=
      forall₂_congr fun input hmem => halone hmem
    rw [hall, areInputsStandard, hcoinbase, if_neg Bool.false_ne_true, inputsStandardFrom_iff]
    constructor
    · intro hconjunction hexempts
      exact not_good_of_exempts hexempts (hconjunction.mp (.inr hexempts))
    intro hexempts
    exact ⟨fun hgood => hgood.resolve_right hexempts, .inl⟩

def inputsEnv : InputsEnv where
  eval :=
    { params := ChainParams.defaults
      maxScriptElementSize := 8192
      hashes := ⟨fun _ => 0, fun _ => 0, fun _ => 0, fun _ => 0, fun _ => 0⟩
      checkLowS := fun _ => true
      checkSig := fun _ _ _ => false
      canSend := fun _ => true }
  standard := StandardEnv.defaults

/-- A transaction with the hash of a script and the hash of a public key as its outputs. -/
def twoOutputs : CoinsView where
  coins := fun hash =>
    if hash = 1 then
      some ⟨false, [⟨0, OP_HASH160 :: 20 :: List.replicate 20 0 ++ [OP_EQUAL]⟩,
          ⟨0, OP_DUP :: OP_HASH160 :: 20 :: List.replicate 20 0 ++ [OP_EQUALVERIFY, OP_CHECKSIG]⟩],
        1, 1⟩
    else none
  height := 1

/-- It has the redeem script `OP_1`, which is no template. -/
def redeemInput : TxIn :=
  ⟨⟨1, 0⟩, [0x01, 0x51]⟩

/-- Three arguments, one more than a public key hash needs. -/
def stuffedInput : TxIn :=
  ⟨⟨1, 1⟩, [0x51, 0x51, 0x51]⟩

/-- A transaction with the input that is refused first. -/
theorem stuffedInput_conjunction_iff :
    (areInputsStandard inputsEnv twoOutputs ⟨2, [stuffedInput, redeemInput], []⟩ = some true
      ↔ ∀ input ∈ [stuffedInput, redeemInput],
        areInputsStandard inputsEnv twoOutputs ⟨2, [input], []⟩ = some true)
      ↔ ¬ExemptsLater inputsEnv twoOutputs [stuffedInput, redeemInput] :=
  areInputsStandard_conjunction_iff inputsEnv twoOutputs ⟨2, [stuffedInput, redeemInput], []⟩
    (by decide)

/-- In the other order the redeem script lets the transaction through. -/
theorem redeemInput_exempts :
    areInputsStandard inputsEnv twoOutputs ⟨2, [redeemInput, stuffedInput], []⟩ = some true
      ∧ areInputsStandard inputsEnv twoOutputs ⟨2, [stuffedInput], []⟩ = some false := by
  decide +kernel

end Interpreter

end Amberchain
