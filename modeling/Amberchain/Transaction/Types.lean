import Amberchain.Base.Failing
import Amberchain.Entity.Insert
import Amberchain.Permission.Grant
import Amberchain.Script.Destination
import Amberchain.Transaction.Quantities

/-!
# Transactions

A transaction, what its acceptance reads besides the databases, and the state it
works on.
-/

namespace Amberchain.Transaction

open Entity Permission

structure OutPoint where
  hash : Hash256
  n : ℕ
deriving DecidableEq

namespace OutPoint

def isNull (outPoint : OutPoint) : Bool :=
  outPoint.hash = 0 ∧ outPoint.n = 0xffffffff

end OutPoint

structure TxIn where
  prevout : OutPoint
  scriptSig : Bytes

structure TxOut where
  value : ℤ
  scriptPubKey : Bytes

/-- `CTransaction` with its hash. -/
structure Tx where
  hash : Hash256
  vin : List TxIn
  vout : List TxOut

def Tx.isCoinBase (tx : Tx) : Bool :=
  match tx.vin with
  | [input] => input.prevout.isNull
  | _ => false

/-- What the acceptance of a transaction reads besides the databases: parameters,
the scripts of the outputs that are spent, the clock and the relay policy. -/
structure TxEnv where
  params : ChainParams
  script : ScriptEnv
  spentScript : OutPoint → Bytes
  time : ℕ
  requireStandard : Bool
  isDust : TxOut → Bool

structure Chain where
  permissions : Store
  assets : AssetDB
  seedNode : Option Hash160

/-- `vInputScriptTypes`, `vInputDestinations` and `vInputHashTypes` at one input;
the zero address stands for no destination. -/
structure InputInfo where
  scriptType : TxnOutType
  destination : Hash160
  hashType : Script.SigHash
deriving DecidableEq

/-- What the input loop finds out. -/
structure Inputs where
  inputs : List InputInfo
  scriptHashAllFound : Bool
  rejectIfOpDropOpReturn : Bool
  checkCachedScript : Bool
  canGrantAdminMine : List Bool
  amounts : Amounts

namespace Inputs

variable (inputs : Inputs)

/-- `vInputDestinations[i]` -/
def destination (i : ℕ) : Hash160 :=
  (inputs.inputs.getD i ⟨.nonstandard, 0, .none⟩).destination

/-- `vInputHashTypes[i]` -/
def hashType (i : ℕ) : Script.SigHash :=
  (inputs.inputs.getD i ⟨.nonstandard, 0, .none⟩).hashType

/-- `vInputScriptTypes[i]` -/
def scriptType (i : ℕ) : TxnOutType :=
  (inputs.inputs.getD i ⟨.nonstandard, 0, .none⟩).scriptType

def signs (i j : ℕ) : Bool :=
  inputs.hashType i = .all ∨ inputs.hashType i = .single ∧ i = j

def signers (j : ℕ) : List ℕ :=
  (List.range inputs.inputs.length).filter fun i => inputs.signs i j

end Inputs

/-- The databases and the variables of `AcceptMultiChainTransaction` that outlive
one output.  The allowed admins and activators are named by input, output and
element. -/
structure TxState where
  permissions : Store
  assets : AssetDB
  amountsOut : Amounts
  canGrantAdminMine : List Bool
  hadAdminPermission : List Bool
  allowedAdmins : List (ℕ × ℕ × ℕ)
  allowedActivators : List (ℕ × ℕ × ℕ)
  newEntityOutput : Option ℕ
  newEntityType : ℕ
  detailsScript : Bytes
  seedNodeInvolved : Bool
  fullReplayCheckRequired : Bool
  adminMinerGrant : Bool

/-- A part of the acceptance; its error is the reason for which the transaction is
rejected. -/
abbrev TxM := EStateM String TxState

def onlyIf (condition : Bool) (action : TxM Unit) : TxM Unit :=
  if condition then action else pure ()

def rejectIf (condition : Bool) (reason : String) : TxM Unit :=
  onlyIf condition (throw reason)

end Amberchain.Transaction

/-!
# The inputs of a transaction

The first loop of `AcceptMultiChainTransaction`: from whom each input comes, what
its signature covers, and which assets it brings.
-/

namespace Amberchain.Transaction

open Entity Permission

variable (env : TxEnv) (assets : AssetDB)

def genesisAdmin (tx : Tx) : Hash160 :=
  let grantsAll (script : McScript) (element : ℕ) : Bool :=
    match (script.setElement element).getPermission with
    | .ok permission => permission.type = MC_PTP_GLOBAL_ALL
    | .error _ => false
  let admin (output : TxOut) : Option Hash160 :=
    let script := McScript.setScript env.params output.scriptPubKey
    if (List.range script.numElements).any (grantsAll script) then
      match Script.extractDestination env.script env.params output.scriptPubKey with
      | some (.key id) => some id
      | _ => none
    else none
  (tx.vout.findSome? admin).getD 0

def coinBaseInput (store : Store) (tx : Tx) (inputs : Inputs) : Inputs :=
  let genesis := store.block = -1
  let info : InputInfo :=
    if genesis then ⟨.pubkeyHash, genesisAdmin env tx, .all⟩ else ⟨.nonstandard, 0, .all⟩
  let checkCachedScript := inputs.checkCachedScript && !decide genesis
  { inputs with
    inputs := inputs.inputs ++ [info]
    scriptHashAllFound := true
    checkCachedScript := checkCachedScript
    canGrantAdminMine := inputs.canGrantAdminMine ++ [!checkCachedScript] }

/-- What the script of a spent output and the script that spends it say of an
input, and whether metadata with `OP_DROP` elements is refused because of it. -/
def inputInfo (spentScript scriptSig : Bytes) : Except String (InputInfo × Bool) :=
  let found := Script.extractDestinations env.script env.params spentScript
  if ¬ found.ok then .ok (⟨.nonstandard, 0, .none⟩, true)
  else if found.type = .nullData then .ok (⟨.nullData, 0, .none⟩, true)
  else
    match (found.addresses.headD .none).address with
    | none => .error "Internal error: cannot extract address from input scriptPubKey"
    | some address =>
      let checkLast := decide (found.type = .pubkey ∨ found.type = .multisig)
      let destination := if found.type = .multisig then 0 else address
      .ok (⟨found.type, destination, Script.sigHashType scriptSig checkLast⟩, checkLast)

/-- One round of the loop for a transaction that is not a coinbase. -/
def spendingInput (tx : Tx) (inputs : Inputs) (input : TxIn) : Except String Inputs := do
  if env.params.fixedIn10007 ∧ ¬ Script.isPushOnly input.scriptSig then
    .error "sigScript should be push-only"
  else
    let spentScript := env.spentScript input.prevout
    let (info, refused) ← inputInfo env spentScript input.scriptSig
    if env.params.fixedIn10008 ∧ info.hashType = .single
        ∧ tx.vout.length ≤ inputs.inputs.length then
      .error "SIGHASH_SINGLE input without matching output"
    else
      let amounts ← extractInputAssetQuantities env.params assets spentScript input.prevout.hash
        inputs.amounts
      return {
        inputs := inputs.inputs ++ [info]
        scriptHashAllFound := inputs.scriptHashAllFound || decide (info.hashType = .all)
        rejectIfOpDropOpReturn := inputs.rejectIfOpDropOpReturn || refused
        checkCachedScript := inputs.checkCachedScript
        canGrantAdminMine := inputs.canGrantAdminMine ++ [!inputs.checkCachedScript]
        amounts := amounts }

/-- The variables before the loop. -/
def noInputs : Inputs where
  inputs := []
  scriptHashAllFound := false
  rejectIfOpDropOpReturn := false
  checkCachedScript := env.params.cachedInputScript && env.params.supportMinerPrecheck
  canGrantAdminMine := []
  amounts := []

def scanInputs (store : Store) (tx : Tx) : Except String Inputs :=
  if tx.isCoinBase then .ok (coinBaseInput env store tx (noInputs env))
  else tx.vin.foldlM (spendingInput env assets tx) (noInputs env)

end Amberchain.Transaction
