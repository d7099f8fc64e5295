import Amberchain.Interpreter.SignatureHash

/-!
# Checking the inputs of a transaction

`CheckInputs`: the coins that a transaction spends, their send permissions, and its input
scripts.
-/

namespace Amberchain.Interpreter

open Storage Transaction

structure CheckEnv where
  params : ChainParams
  maxScriptElementSize : ℕ
  hashes : HashFunctions
  checkLowS : Bytes → Bool
  ecdsaVerify : Bytes → Bytes → Hash256 → Bool
  extractDestinations10008 : Bytes → Destinations
  permissions : Permission.Store
  maxMoney : ℤ
  coinbaseMaturity : ℤ

structure CoinsView where
  coins : Hash256 → Option Coins
  height : ℤ

/-- Why inputs are refused. -/
inductive InputsError where
  | unavailable
  | prematureSpendOfCoinbase
  | inputValuesOutOfRange
  | noSendPermission (input : ℕ)
  | valueOutOutOfRange
  | inBelowOut
  | feeOutOfRange
  | nonMandatoryFlag (err : ScriptError)
  | mandatoryFlag (err : ScriptError)
deriving DecidableEq

namespace CheckEnv

variable (env : CheckEnv)

/-- `CanSend` without an entity. -/
def canSend (address : Hash160) : Bool :=
  env.permissions.canSend env.params Permission.nullEntity address ≠ 0

/-- `CPubKey::Verify` -/
def verifySignature (sig pubKey : Bytes) (hash : Hash256) : Bool :=
  sig ≠ [] ∧ env.ecdsaVerify sig pubKey hash

/-- `CheckSig` without its permission check. -/
def checkSig (tx : SignedTx) (nIn : ℕ) (sig pubKey scriptCode : Bytes) : Bool :=
  match sig.getLast? with
  | none => false
  | some hashType =>
    isValidPubKey pubKey && env.verifySignature sig.dropLast pubKey
      (signatureHash scriptCode tx nIn hashType env.hashes.hash256)

def verifyEnv (tx : SignedTx) (nIn : ℕ) : VerifyEnv where
  params := env.params
  maxScriptElementSize := env.maxScriptElementSize
  hashes := env.hashes
  checkLowS := env.checkLowS
  checkSig := env.checkSig tx nIn
  canSend := env.canSend
  extractDestinations10008 := env.extractDestinations10008

/-- The functions for `ExtractDestinations`. -/
def script : ScriptEnv :=
  ⟨env.hashes.hash160, env.extractDestinations10008⟩

def moneyRange (value : ℤ) : Bool :=
  0 ≤ value ∧ value ≤ env.maxMoney

end CheckEnv

/-- `ExtractDestinationScriptValid`, which reads the address at a fixed place. -/
def extractDestinationScriptValid (hash160 : Bytes → Hash160) (script : Bytes) :
    Option Destination :=
  let size := script.length
  let first := script.headD 0
  if 25 ≤ size ∧ first = OP_DUP then some (.key (Script.addressOf (script.drop 3)))
  else if 23 ≤ size ∧ first = OP_HASH160 then some (.script (Script.addressOf (script.drop 2)))
  else if 35 ≤ size ∧ 33 ≤ first.toNat ∧ first.toNat ≤ 65 ∧ 2 + first.toNat ≤ size then
    let pubKey := (script.drop 1).take first.toNat
    if isValidPubKey pubKey then some (.key (hash160 pubKey)) else none
  else none

variable (env : CheckEnv)

/-- The send permission that is looked up before the scripts run: whether they need not
look for one. -/
def sendPermission (i : ℕ) (script : Bytes) : Except InputsError Bool :=
  match extractDestinationScriptValid env.hashes.hash160 script with
  | some (.key id) => if env.canSend id then .ok true else .error (.noSendPermission i)
  | some (.script id) => .ok (env.canSend id)
  | _ => .ok false

/-- `HaveInputs` of a transaction that is not a coinbase. -/
def haveInputs (view : CoinsView) (tx : SignedTx) : Bool :=
  tx.vin.all fun input =>
    match view.coins input.prevout.hash with
    | none => false
    | some coins => coins.isAvailable input.prevout.n

def spentOutput (view : CoinsView) (prevout : OutPoint) : Option (Coins × TxOut) := do
  let coins ← view.coins prevout.hash
  let out ← coins.vout[prevout.n]?
  return (coins, out)

/-- What the first loop gathers: the sum of the inputs, and for each whether its scripts
need not look for a send permission. -/
structure InputScan where
  valueIn : ℤ
  skips : List Bool

/-- One round of the first loop. -/
def scanInput (view : CoinsView) (scriptChecks : Bool) (scan : InputScan) (input : TxIn) :
    Except InputsError InputScan :=
  match spentOutput view input.prevout with
  | none => .error .unavailable
  | some (coins, out) =>
    let valueIn := scan.valueIn + out.value
    if coins.coinBase ∧ view.height + 1 - coins.height < env.coinbaseMaturity then
      .error .prematureSpendOfCoinbase
    else if ¬ env.moneyRange out.value ∨ ¬ env.moneyRange valueIn then
      .error .inputValuesOutOfRange
    else do
      let skip ←
        if scriptChecks then sendPermission env scan.skips.length out.scriptPubKey else .ok false
      return ⟨valueIn, scan.skips ++ [skip]⟩

/-- `GetValueOut`, which throws when a sum is out of range. -/
def getValueOut (tx : SignedTx) : Except InputsError ℤ :=
  if ¬ env.params.withNativeCurrency then .ok 0
  else
    tx.vout.foldlM (fun total out =>
      if env.moneyRange out.value ∧ env.moneyRange (total + out.value) then
        .ok (total + out.value)
      else .error .valueOutOutOfRange) 0

/-- `CScriptCheck` of an input, with its flags. -/
structure ScriptCheck where
  nIn : ℕ
  flags : VerifyFlags
deriving DecidableEq

/-- The operator of `CScriptCheck`. -/
def ScriptCheck.run (view : CoinsView) (tx : SignedTx) (check : ScriptCheck) :
    Except ScriptError (List SigOp) :=
  let input := tx.vin.getD check.nIn ⟨⟨0, 0⟩, []⟩
  match spentOutput view input.prevout with
  | none => .error .unknownError
  | some (_, out) =>
    verifyScript (env.verifyEnv tx check.nIn) check.flags input.scriptSig out.scriptPubKey

/-- The flags without those of `STANDARD_NOT_MANDATORY_VERIFY_FLAGS`. -/
def VerifyFlags.onlyMandatory (flags : VerifyFlags) : VerifyFlags :=
  { flags with
    derSig := false
    strictEnc := false
    minimalData := false
    nullDummy := false
    discourageUpgradableNops := false
    lowS := false }

/-- How a failed check is reported: as non-mandatory when it succeeds with the mandatory
flags alone, which leave the send permission out. -/
def scriptFailure (view : CoinsView) (tx : SignedTx) (flags : VerifyFlags) (nIn : ℕ)
    (err : ScriptError) : InputsError :=
  if flags ≠ flags.onlyMandatory then
    match ScriptCheck.run env view tx ⟨nIn, flags.onlyMandatory⟩ with
    | .ok _ => .nonMandatoryFlag err
    | .error _ => .mandatoryFlag err
  else .mandatoryFlag err

/-- One round of the second loop: a check that does not look for a send permission can be
left to the check queue. -/
def checkScript (view : CoinsView) (tx : SignedTx) (flags : VerifyFlags) (queue : Bool)
    (queued : List ScriptCheck) (input : ℕ × Bool) : Except InputsError (List ScriptCheck) :=
  let check : ScriptCheck :=
    ⟨input.1, { flags with
      skipSendPermissionCheck := flags.skipSendPermissionCheck || input.2 }⟩
  if queue ∧ input.2 then .ok (queued ++ [check])
  else
    match check.run env view tx with
    | .ok _ => .ok queued
    | .error err => .error (scriptFailure env view tx flags input.1 err)

/-- `CheckInputs`: it succeeds with the checks that it leaves to the check queue. -/
def checkInputs (view : CoinsView) (tx : SignedTx) (scriptChecks : Bool) (flags : VerifyFlags)
    (queue : Bool) : Except InputsError (List ScriptCheck) :=
  if tx.isCoinBase then .ok []
  else if ¬ haveInputs view tx then .error .unavailable
  else do
    let scan ← tx.vin.foldlM (scanInput env view scriptChecks) ⟨0, []⟩
    let valueOut ← getValueOut env tx
    if scan.valueIn < valueOut then .error .inBelowOut
    else if ¬ env.moneyRange (scan.valueIn - valueOut) then .error .feeOutOfRange
    else if ¬ scriptChecks then .ok []
    else
      ((List.range tx.vin.length).zip scan.skips).foldlM (checkScript env view tx flags queue) []

end Amberchain.Interpreter
