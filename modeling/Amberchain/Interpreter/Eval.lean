import Amberchain.Interpreter.Stacks
import Amberchain.Miner.BlockSignature

/-!
# Script evaluation

`EvalScript`: the loop over the operations of a script, with its conditions and its
signature operations.  Besides the stack, an evaluation returns the signature operations
that it executed.
-/

namespace Amberchain.Interpreter

open Miner (pushData)

def OP_VERIF : Byte := 0x65
def OP_VERNOTIF : Byte := 0x66
def OP_IF : Byte := 0x63
def OP_NOTIF : Byte := 0x64
def OP_ELSE : Byte := 0x67
def OP_ENDIF : Byte := 0x68
def OP_CODESEPARATOR : Byte := 0xab
def OP_CHECKSIGVERIFY : Byte := 0xad
def OP_CHECKMULTISIGVERIFY : Byte := 0xaf

/-- `OP_CAT` and the other operations that are switched off. -/
def disabledOpcodes : List Byte :=
  [0x7e, 0x7f, 0x80, 0x81, 0x83, 0x84, 0x85, 0x86, 0x8d, 0x8e, 0x95, 0x96, 0x97, 0x98, 0x99]

/-- What the interpreter reads besides the script: the chain parameters, the hash
functions, the order of signatures with a low value, `CheckSig` without its permission
check, and `CanSend`. -/
structure EvalEnv where
  params : ChainParams
  maxScriptElementSize : ℕ
  hashes : HashFunctions
  checkLowS : Bytes → Bool
  checkSig : Bytes → Bytes → Bytes → Bool
  canSend : Hash160 → Bool

/-- A signature that `CheckSig` accepted: with its hash type, its public key and the
script that it signs. -/
structure Accepted where
  signature : Bytes
  pubKey : Bytes
  scriptCode : Bytes
deriving DecidableEq

/-- A signature operation that was executed: what it came to, and the signatures that
were accepted on the way. -/
structure SigOp where
  success : Bool
  accepted : List Accepted
deriving DecidableEq

/-- The variables of `EvalScript`; `scriptCode` is the script behind the last
`OP_CODESEPARATOR`. -/
structure Machine where
  stack : Stacks
  exec : List Bool
  opCount : ℕ
  scriptCode : Bytes
  longElement : Bool
  sigOps : List SigOp
deriving DecidableEq

def dropCopies (pattern : Bytes) : ℕ → Bytes → Bytes
  | 0, script => script
  | fuel + 1, script =>
    if pattern.isPrefixOf script then dropCopies pattern fuel (script.drop pattern.length)
    else script

/-- The loop of `FindAndDelete`: copies are looked for in front of every operation. -/
def deleteFrom (pattern : Bytes) : ℕ → Bytes → Bytes
  | 0, script => script
  | fuel + 1, script =>
    let script := dropCopies pattern script.length script
    match getOp script with
    | none => script
    | some op =>
      script.take (script.length - op.rest.length) ++ deleteFrom pattern fuel op.rest

def findAndDelete (pattern script : Bytes) : Bytes :=
  if pattern = [] then script else deleteFrom pattern (script.length + 1) script

variable (env : EvalEnv) (flags : VerifyFlags)

/-- `CheckSig` of the checker, and what it leaves in `cannot_send`. -/
def checkSigSend (sig pubKey scriptCode : Bytes) (cannotSend : Bool) : Bool × Bool :=
  if env.checkSig sig pubKey scriptCode then
    (true, cannotSend && env.params.isProtocolMultichain
      && !env.canSend (env.hashes.hash160 pubKey))
  else (false, cannotSend)

def checkEncodings (sig pubKey : Bytes) : Except ScriptError Unit := do
  checkSignatureEncoding env.checkLowS flags sig
  checkPubKeyEncoding flags pubKey

def pushResult (verify : Bool) (err : ScriptError) (success : Bool) (rest : List Bytes) :
    Except ScriptError (List Bytes) :=
  if verify then if success then .ok rest else .error err
  else .ok (vchOf success :: rest)

def Machine.afterSigOp (machine : Machine) (main : List Bytes) (sigOp : SigOp) : Machine :=
  { machine with
    stack := { machine.stack with main := main }
    sigOps := machine.sigOps ++ [sigOp] }

/-- `OP_CHECKSIG` and `OP_CHECKSIGVERIFY` -/
def checkSigOp (verify : Bool) (machine : Machine) : Except ScriptError Machine :=
  match machine.stack.main with
  | pubKey :: sig :: rest => do
    let scriptCode := findAndDelete (pushData sig) machine.scriptCode
    checkEncodings env flags sig pubKey
    let found := checkSigSend env sig pubKey scriptCode !flags.skipSendPermissionCheck
    let success := found.1 && !found.2
    let main ← pushResult verify .checkSigVerify success rest
    return machine.afterSigOp main
      ⟨success, if found.1 then [⟨sig, pubKey, scriptCode⟩] else []⟩
  | _ => .error .invalidStackOperation

/-- What the loop of `OP_CHECKMULTISIG` leaves: `fSuccess`, `cannot_send` and the
signatures that were accepted. -/
structure MultisigResult where
  success : Bool
  cannotSend : Bool
  accepted : List Accepted

/-- The loop of `OP_CHECKMULTISIG` over the keys, with the signatures that are left. -/
def multisigFrom (scriptCode : Bytes) :
    List Bytes → List Bytes → Bool → List Accepted → Except ScriptError MultisigResult
  | _, [], cannotSend, accepted => .ok ⟨true, cannotSend, accepted⟩
  | [], _ :: _, cannotSend, accepted => .ok ⟨false, cannotSend, accepted⟩
  | pubKey :: keys, sig :: sigs, cannotSend, accepted => do
    checkEncodings env flags sig pubKey
    let found := checkSigSend env sig pubKey scriptCode cannotSend
    let accepted := if found.1 then accepted ++ [⟨sig, pubKey, scriptCode⟩] else accepted
    let left := if found.1 then sigs else sig :: sigs
    if keys.length < left.length then .ok ⟨false, found.2, accepted⟩
    else multisigFrom scriptCode keys left found.2 accepted

/-- A count on the stack of `OP_CHECKMULTISIG`. -/
def countOf (max : ℕ) (err : ScriptError) (data : Bytes) : Except ScriptError ℕ :=
  match scriptNum flags.minimalData data with
  | none => .error .unknownError
  | some value =>
    if getInt value < 0 ∨ (max : ℤ) < getInt value then .error err
    else .ok (getInt value).toNat

/-- What `OP_CHECKMULTISIG` finds on the stack. -/
structure MultisigArgs where
  keys : List Bytes
  sigs : List Bytes
  dummy : Bytes
  rest : List Bytes
  opCount : ℕ

/-- The script that the signatures sign: none of them signs itself. -/
def MultisigArgs.scriptCode (args : MultisigArgs) (scriptCode : Bytes) : Bytes :=
  args.sigs.foldl (fun code sig => findAndDelete (pushData sig) code) scriptCode

/-- The arguments of `OP_CHECKMULTISIG`. -/
def multisigArgs (machine : Machine) : Except ScriptError MultisigArgs :=
  match machine.stack.main with
  | [] => .error .invalidStackOperation
  | top :: below => do
    let keysCount ← countOf flags 20 .pubkeyCount top
    if 201 < machine.opCount + keysCount then .error .opCount
    else
      match below.drop keysCount with
      | [] => .error .invalidStackOperation
      | top' :: below' => do
        let sigsCount ← countOf flags keysCount .sigCount top'
        match below'.drop sigsCount with
        | [] => .error .invalidStackOperation
        | dummy :: rest =>
          return ⟨below.take keysCount, below'.take sigsCount, dummy, rest,
            machine.opCount + keysCount⟩

/-- `OP_CHECKMULTISIG` and `OP_CHECKMULTISIGVERIFY`.  Outside of the protocol the send
permission is not needed, not even without a signature. -/
def checkMultisigOp (verify : Bool) (machine : Machine) : Except ScriptError Machine := do
  let args ← multisigArgs flags machine
  let scriptCode := args.scriptCode machine.scriptCode
  let cannotSend := !flags.skipSendPermissionCheck && env.params.isProtocolMultichain
  let found ← multisigFrom env flags scriptCode args.keys args.sigs cannotSend []
  let success := found.success && !found.cannotSend
  if flags.nullDummy ∧ args.dummy ≠ [] then .error .sigNullDummy
  else
    let main ← pushResult verify .checkMultisigVerify success args.rest
    return { machine with opCount := args.opCount }.afterSigOp main ⟨success, found.accepted⟩

/-- `OP_IF` to `OP_ENDIF`, which are read even where nothing is executed. -/
def conditionOp (opcode : Byte) (running : Bool) (machine : Machine) : Except ScriptError Machine :=
  if opcode = OP_IF ∨ opcode = OP_NOTIF then
    if running then
      match machine.stack.main with
      | x :: rest =>
        let value := if opcode = OP_NOTIF then !castToBool x else castToBool x
        .ok { machine with
          stack := { machine.stack with main := rest }, exec := value :: machine.exec }
      | [] => .error .unbalancedConditional
    else .ok { machine with exec := false :: machine.exec }
  else if opcode = OP_ELSE then
    match machine.exec with
    | value :: rest => .ok { machine with exec := (!value) :: rest }
    | [] => .error .unbalancedConditional
  else if opcode = OP_ENDIF then
    match machine.exec with
    | _ :: rest => .ok { machine with exec := rest }
    | [] => .error .unbalancedConditional
  else .error .badOpcode

/-- An operation, once its limits are checked. -/
def execute (op : ScriptOp) (machine : Machine) : Except ScriptError Machine :=
  let running := machine.exec.all id
  if running ∧ op.opcode ≤ OP_PUSHDATA4 then
    if flags.minimalData ∧ ¬ checkMinimalPush op.data op.opcode then .error .minimalData
    else .ok { machine with stack.main := op.data :: machine.stack.main }
  else if inRange OP_IF OP_ENDIF op.opcode then conditionOp op.opcode running machine
  else if ¬ running then .ok machine
  else if op.opcode = OP_CODESEPARATOR then .ok { machine with scriptCode := op.rest }
  else if op.opcode = OP_CHECKSIG ∨ op.opcode = OP_CHECKSIGVERIFY then
    checkSigOp env flags (op.opcode = OP_CHECKSIGVERIFY) machine
  else if op.opcode = OP_CHECKMULTISIG ∨ op.opcode = OP_CHECKMULTISIGVERIFY then
    checkMultisigOp env flags (op.opcode = OP_CHECKMULTISIGVERIFY) machine
  else
    (stackOp env.hashes flags op.opcode machine.stack).map fun stack =>
      { machine with stack := stack }

def checkElementSize (op : ScriptOp) (machine : Machine) : Except ScriptError Machine :=
  if machine.longElement ∧ ¬ env.params.fixedIn10007 ∧ op.opcode ≠ OP_DROP then
    .error .pushSize
  else if env.params.streams ∨ op.data.length ≤ env.maxScriptElementSize then
    .ok { machine with longElement := false }
  else if env.params.verifySizeOfOpDropElements then .error .pushSize
  else .ok { machine with longElement := true }

/-- `nOpCount`: pushes and `OP_RESERVED` do not count. -/
def countOp (op : ScriptOp) (machine : Machine) : Except ScriptError Machine :=
  if ¬ OP_16 < op.opcode then .ok machine
  else if 201 < machine.opCount + 1 then .error .opCount
  else .ok { machine with opCount := machine.opCount + 1 }

local instance lawfulByte : LawfulBEq Byte := inferInstance

def evalRound (op : ScriptOp) (machine : Machine) : Except ScriptError Machine := do
  let machine ← countOp op (← checkElementSize env op machine)
  if op.opcode ∈ disabledOpcodes then .error .disabledOpcode
  else
    let machine ← execute env flags op machine
    if 1000 < machine.stack.main.length + machine.stack.alt.length then .error .stackSize
    else return machine

/-- The loop of `EvalScript`. -/
def evalFrom : ℕ → Bytes → Machine → Except ScriptError Machine
  | 0, _, machine => .ok machine
  | fuel + 1, script, machine =>
    if script = [] then .ok machine
    else
      match getOp script with
      | none => .error .badOpcode
      | some op => do evalFrom fuel op.rest (← evalRound env flags op machine)

/-- The variables before the loop. -/
def Machine.start (script : Bytes) (stack : List Bytes) : Machine where
  stack := ⟨stack, []⟩
  exec := []
  opCount := 0
  scriptCode := script
  longElement := false
  sigOps := []

structure Evaluated where
  stack : List Bytes
  sigOps : List SigOp
deriving DecidableEq

def evalScript (stack : List Bytes) (script : Bytes) : Except ScriptError Evaluated :=
  if 10000 < script.length then .error .scriptSize
  else do
    let machine ← evalFrom env flags script.length script (Machine.start script stack)
    if machine.exec ≠ [] then .error .unbalancedConditional
    else return ⟨machine.stack.main, machine.sigOps⟩


/-- What `VerifyScript` reads besides the two scripts: `EvalEnv`, and the destinations of
the protocols before 10009. -/
structure VerifyEnv extends EvalEnv where
  extractDestinations10008 : Bytes → Destinations

/-- The functions for `ExtractDestination`. -/
def VerifyEnv.script (env : VerifyEnv) : ScriptEnv :=
  ⟨env.hashes.hash160, env.extractDestinations10008⟩

def isPayToScriptHash (script : Bytes) : Bool :=
  23 ≤ script.length ∧ script[0]? = some OP_HASH160 ∧ script[1]? = some 0x14
    ∧ script[22]? = some OP_EQUAL

def hasSmallIntegerInTheBeginning (script : Bytes) : Bool :=
  match script with
  | [] => false
  | opcode :: _ => opcode = OP_0 ∨ inRange OP_1 OP_16 opcode

variable (env : VerifyEnv) (flags : VerifyFlags)

/-- The flags for the script behind a script hash: whoever the hash permits to send does
not need the permission of a key. -/
def redeemFlags (scriptSig spentScript : Bytes) : Except ScriptError VerifyFlags :=
  if ¬ env.params.streams then .ok flags
  else if ¬ hasSmallIntegerInTheBeginning scriptSig then .error .evalFalse
  else
    match Script.extractDestination env.script env.params spentScript with
    | none => .error .verify
    | some address =>
      if flags.skipSendPermissionCheck then .ok flags
      else
        match address with
        | .script id => .ok { flags with skipSendPermissionCheck := env.canSend id }
        | _ => .error .verify

/-- The part of `VerifyScript` for an output that pays to a script hash, with the stack
that the input script left. -/
def verifyRedeemScript (scriptSig spentScript : Bytes) (stack : List Bytes) :
    Except ScriptError (List SigOp) :=
  if ¬ Script.isPushOnly scriptSig then .error .sigPushOnly
  else do
    let redeemFlags ← redeemFlags env flags scriptSig spentScript
    match stack with
    | [] => .error .unknownError
    | redeemScript :: below => do
      let result ← evalScript env.toEvalEnv redeemFlags below redeemScript
      if castToBool (result.stack.headD []) then return result.sigOps else .error .evalFalse

/-- `VerifyScript` with the signature operations of all evaluations. -/
def verifyScript (scriptSig spentScript : Bytes) : Except ScriptError (List SigOp) :=
  if flags.sigPushOnly ∧ ¬ Script.isPushOnly scriptSig then .error .sigPushOnly
  else do
    let signed ← evalScript env.toEvalEnv flags [] scriptSig
    let spent ← evalScript env.toEvalEnv flags signed.stack spentScript
    match spent.stack with
    | [] => .error .evalFalse
    | top :: below =>
      if ¬ castToBool top then .error .checkSigVerify
      else if env.params.streams ∧ ¬ hasSmallIntegerInTheBeginning scriptSig ∧ below ≠ [] then
        .error .evalFalse
      else if flags.p2sh ∧ isPayToScriptHash spentScript then do
        let sigOps ← verifyRedeemScript env flags scriptSig spentScript signed.stack
        return signed.sigOps ++ spent.sigOps ++ sigOps
      else return signed.sigOps ++ spent.sigOps

end Amberchain.Interpreter
