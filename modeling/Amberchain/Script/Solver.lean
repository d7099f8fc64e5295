import Amberchain.Script.Operations

/-!
# Standard output scripts

`Solver` compares a script with templates, each with up to `MCP_STD_OP_DROP_COUNT` dropped
elements behind it.  `IsStandard` reads the two hash scripts and data scripts itself, and leaves
the others to `IsStandardFull`, which asks `Solver`.
-/

namespace Amberchain

def OP_0 : Byte := 0x00
def OP_DROPDATA : Byte := 0xf8
def OP_SMALLDATA : Byte := 0xf9
def OP_SMALLINTEGER : Byte := 0xfa
def OP_PUBKEYS : Byte := 0xfb
def OP_PUBKEYHASH : Byte := 0xfd
def OP_PUBKEY : Byte := 0xfe
def OP_INVALIDOPCODE : Byte := 0xff

/-- What the checks read besides the script.  The templates are made once: `datacarrier` and
`streamTemplates` are what the option and the features said then. -/
structure StandardEnv where
  maxOpReturnRelay : ℕ
  maxScriptElementSize : ℕ
  stdOpDropCount : ℕ
  verifySizeOfOpDropElements : Bool
  fixedDestinationExtraction : Bool
  datacarrier : Bool
  streamTemplates : Bool
deriving DecidableEq

/-- The parameters of a new chain. -/
def StandardEnv.defaults : StandardEnv where
  maxOpReturnRelay := 2097152
  maxScriptElementSize := 8192
  stdOpDropCount := 5
  verifySizeOfOpDropElements := true
  fixedDestinationExtraction := true
  datacarrier := true
  streamTemplates := true

namespace Script

def nullDataTemplates (env : StandardEnv) : List (List Byte) :=
  (if env.datacarrier then [[OP_RETURN, OP_SMALLDATA]] else []) ++ [[OP_RETURN]]
    ++ if env.streamTemplates then
      [[OP_DROPDATA, OP_DROP, OP_RETURN], [OP_DROPDATA, OP_DROP, OP_RETURN, OP_SMALLDATA],
        [OP_DROPDATA, OP_DROP, OP_DROPDATA, OP_DROP, OP_RETURN],
        [OP_DROPDATA, OP_DROP, OP_DROPDATA, OP_DROP, OP_RETURN, OP_SMALLDATA]]
    else []

/-- `mTemplates`, in the order of the types. -/
def templates (env : StandardEnv) : List (TxnOutType × List Byte) :=
  [(.pubkey, [OP_PUBKEY, OP_CHECKSIG]),
    (.pubkeyHash, [OP_DUP, OP_HASH160, OP_PUBKEYHASH, OP_EQUALVERIFY, OP_CHECKSIG]),
    (.scriptHash, [OP_HASH160, OP_PUBKEYHASH, OP_EQUAL]),
    (.multisig, [OP_SMALLINTEGER, OP_PUBKEYS, OP_SMALLINTEGER, OP_CHECKMULTISIG])]
  ++ (nullDataTemplates env).map fun template => (.nullData, template)

variable (env : StandardEnv)

def isPubKeySize (data : Bytes) : Bool :=
  33 ≤ data.length && data.length ≤ 65

def decodeOpN (opcode : Byte) : ℕ :=
  if opcode = OP_0 then 0 else opcode.toNat - 0x50

/-- An operation against a template opcode other than `OP_PUBKEYS`: the solutions, if it fits. -/
def matchOp (op : ScriptOp) (opcode : Byte) : Option (List Bytes) :=
  if opcode = OP_PUBKEY then if isPubKeySize op.data then some [op.data] else none
  else if opcode = OP_PUBKEYHASH then if op.data.length = 20 then some [op.data] else none
  else if opcode = OP_SMALLINTEGER then
    if op.opcode = OP_0 ∨ (OP_1 ≤ op.opcode ∧ op.opcode ≤ OP_16) then
      some [[BitVec.ofNat 8 (decodeOpN op.opcode)]]
    else none
  else if opcode = OP_SMALLDATA then
    if op.data.length ≤ env.maxOpReturnRelay then some [] else none
  else if opcode = OP_DROPDATA then
    if env.verifySizeOfOpDropElements ∧ env.maxScriptElementSize < op.data.length then none
    else some []
  else if op.opcode = opcode ∧ op.data = [] then some []
  else none

/-- What `GetOp` leaves when it fails. -/
def invalidOp (script : Bytes) : ScriptOp :=
  ⟨OP_INVALIDOPCODE, [], skipOp script⟩

def takePubKeys : ℕ → ScriptOp → List Bytes → ScriptOp × List Bytes
  | 0, op, keys => (op, keys)
  | fuel + 1, op, keys =>
    if isPubKeySize op.data then
      match getOp op.rest with
      | none => (invalidOp op.rest, keys ++ [op.data])
      | some next => takePubKeys fuel next (keys ++ [op.data])
    else (op, keys)

def matchOps : List Byte → Bytes → List Bytes → Option (Bytes × List Bytes)
  | [], script, solutions => some (script, solutions)
  | opcode :: template, script, solutions =>
    match getOp script with
    | none => none
    | some op =>
      if opcode = OP_PUBKEYS then
        let (op, solutions) := takePubKeys script.length op solutions
        match template with
        | [] => none
        | next :: template =>
          match matchOp env op next with
          | none => none
          | some found => matchOps template op.rest (solutions ++ found)
      else
        match matchOp env op opcode with
        | none => none
        | some found => matchOps template op.rest (solutions ++ found)

def matchTemplate (template : List Byte) (script : Bytes) : Option (List Bytes) :=
  match matchOps env template script [] with
  | some ([], solutions) => some solutions
  | _ => none

/-- `OP_DROPDATA` and `OP_DROP`, some times. -/
def dropOpcodes : ℕ → List Byte
  | 0 => []
  | count + 1 => OP_DROPDATA :: OP_DROP :: dropOpcodes count

/-- A template with up to `MCP_STD_OP_DROP_COUNT` dropped elements behind it. -/
def matchWithDrops (template : List Byte) (script : Bytes) : Option (List Bytes) :=
  (List.range (env.stdOpDropCount + 1)).findSome? fun drops =>
    matchTemplate env (template ++ dropOpcodes drops) script

/-- What `Solver` returns: its type and solutions count also when it returns `false`. -/
structure Solved where
  ok : Bool
  type : TxnOutType
  solutions : List Bytes
deriving DecidableEq

def firstByte (solution : Bytes) : ℕ :=
  (solution.headD 0).toNat

def multisigCounts (solutions : List Bytes) : Bool :=
  let m := firstByte (solutions.headD [])
  let n := firstByte (solutions.getLastD [])
  !(m < 1 || n < 1 || n < m || solutions.length - 2 ≠ n)

def findTemplate (script : Bytes) : Option (TxnOutType × List Bytes) :=
  (templates env).findSome? fun (type, template) =>
    (matchWithDrops env template script).map fun solutions => (type, solutions)

def solver (script : Bytes) : Solved :=
  match findTemplate env script with
  | none => ⟨false, .nonstandard, []⟩
  | some (type, solutions) =>
    ⟨type ≠ .multisig || multisigCounts solutions, type, solutions⟩

/-- `ScriptSigArgsExpected`, with `none` for -1. -/
def scriptSigArgsExpected (type : TxnOutType) (solutions : List Bytes) : Option ℕ :=
  match type with
  | .nonstandard => none
  | .nullData => none
  | .pubkey => some 1
  | .pubkeyHash => some 2
  | .multisig =>
    if solutions.length < 1 ∨ (solutions.headD []).length < 1 then none
    else some (firstByte (solutions.headD []) + 1)
  | .scriptHash => some 1

/-- `IsStandardFull`, with the type when the answer is yes. -/
def isStandardFull (script : Bytes) : Option TxnOutType :=
  let solved := solver env script
  if !solved.ok then none
  else if solved.type = .multisig then
    let m := firstByte (solved.solutions.headD [])
    let n := firstByte (solved.solutions.getLastD [])
    if n < 1 ∨ 3 < n then none
    else if m < 1 ∨ n < m then none
    else some .multisig
  else if solved.type ≠ .nonstandard then some solved.type
  else none

def checksSizes (standardCheck : Bool) : Bool :=
  !env.fixedDestinationExtraction || standardCheck

/-- The loop over the elements before `OP_RETURN`: their operations, and what stands behind it. -/
def nullDataElements : ℕ → Bytes → Option (List ScriptOp × Bytes)
  | 0, script => (expectOp OP_RETURN script).map fun rest => ([], rest)
  | drops + 1, script =>
    match getOp script with
    | none => none
    | some op =>
      if op.opcode = OP_RETURN then some ([], op.rest)
      else if OP_PUSHDATA4 < op.opcode ∧ env.fixedDestinationExtraction then none
      else
        match expectOp OP_DROP op.rest with
        | none => none
        | some rest =>
          (nullDataElements drops rest).map fun (elements, rest) => (op :: elements, rest)

/-- The size of an element: a small one is its opcode, those of `OP_PUSHDATA1` to
`OP_PUSHDATA4` are read in a second pass, and other opcodes have none. -/
def elementSize (op : ScriptOp) : ℕ :=
  if op.opcode < OP_PUSHDATA1 then op.opcode.toNat
  else if op.opcode ≤ OP_PUSHDATA4 then op.data.length
  else 0

/-- What stands behind `OP_RETURN`.  Whether its operation can be read is not looked at when more
than `OP_PUSHDATA1` bytes are left. -/
def nullDataBehind (standardCheck : Bool) (rest : Bytes) : Bool :=
  if rest = [] then true
  else
    let op := (getOp rest).getD (invalidOp rest)
    if OP_PUSHDATA1.toNat < rest.length then
      !(checksSizes env standardCheck && env.maxOpReturnRelay < op.data.length)
        && (getOp op.rest).isNone
    else
      !(OP_PUSHDATA1 ≤ op.opcode)
        && !(checksSizes env standardCheck && env.maxOpReturnRelay < op.opcode.toNat)
        && (getOp op.rest).isNone

/-- `IsStandardNullData` -/
def isStandardNullDataFor (standardCheck : Bool) (script : Bytes) : Bool :=
  match nullDataElements env 2 script with
  | none => false
  | some (elements, rest) =>
    nullDataBehind env standardCheck rest
      && !(env.verifySizeOfOpDropElements && checksSizes env standardCheck
        && elements.any fun op => env.maxScriptElementSize < elementSize op)

def checkedHash (checks : List Byte) (script : Bytes) : Option Bytes :=
  match getOp script with
  | none => none
  | some pushed => if pushed.data.length ≠ 20 then none else expectOps checks pushed.rest

/-- The elements behind a destination: each is dropped, and there are no more than so many. -/
def onlyStandardDrops : ℕ → Bytes → Bool
  | 0, script => script = []
  | drops + 1, script =>
    if script = [] then true
    else
      match getOp script with
      | none => false
      | some op =>
        if env.verifySizeOfOpDropElements ∧ env.maxScriptElementSize < op.data.length then false
        else
          match expectOp OP_DROP op.rest with
          | none => false
          | some rest => onlyStandardDrops drops rest

def withStandardDrops (type : TxnOutType) (script : Bytes) : Option TxnOutType :=
  if onlyStandardDrops env env.stdOpDropCount script then some type else none

/-- `IsStandard`, with the type when the answer is yes. -/
def isStandard (script : Bytes) : Option TxnOutType :=
  match getOp script with
  | none => withStandardDrops env .nonstandard (skipOp script)
  | some op =>
    if op.opcode = OP_DUP then
      match expectOp OP_HASH160 op.rest with
      | none => none
      | some hash =>
        (checkedHash [OP_EQUALVERIFY, OP_CHECKSIG] hash).bind
          (withStandardDrops env .pubkeyHash)
    else if op.opcode = OP_HASH160 then
      (checkedHash [OP_EQUAL] op.rest).bind (withStandardDrops env .scriptHash)
    else if isStandardNullDataFor env true script then some .nullData
    else isStandardFull env script

end Script

end Amberchain
