import Amberchain.Script.Destination
import Mathlib.Tactic.IntervalCases

/-!
# Errors, flags and encodings

The errors and the flags of the script interpreter, and the checks of the form of
signatures, public keys and pushes that the flags switch on.
-/

namespace Amberchain.Interpreter

inductive ScriptError where
  | unknownError
  | evalFalse
  | opReturn
  | scriptSize
  | pushSize
  | opCount
  | stackSize
  | sigCount
  | pubkeyCount
  | verify
  | equalVerify
  | checkMultisigVerify
  | checkSigVerify
  | numEqualVerify
  | badOpcode
  | disabledOpcode
  | invalidStackOperation
  | invalidAltstackOperation
  | unbalancedConditional
  | sigHashtype
  | sigDer
  | minimalData
  | sigPushOnly
  | sigNullDummy
  | pubkeyType
  | discourageUpgradableNops
deriving DecidableEq

/-- The `SCRIPT_VERIFY_` flags. -/
structure VerifyFlags where
  p2sh : Bool
  strictEnc : Bool
  derSig : Bool
  lowS : Bool
  nullDummy : Bool
  sigPushOnly : Bool
  minimalData : Bool
  discourageUpgradableNops : Bool
  skipSendPermissionCheck : Bool
deriving DecidableEq

/-- `MANDATORY_SCRIPT_VERIFY_FLAGS` -/
def VerifyFlags.mandatory : VerifyFlags where
  p2sh := true
  strictEnc := false
  derSig := false
  lowS := false
  nullDummy := false
  sigPushOnly := false
  minimalData := false
  discourageUpgradableNops := false
  skipSendPermissionCheck := false

/-- `CPubKey::IsValid` of the public key in some bytes. -/
def isValidPubKey (data : Bytes) : Bool :=
  let length := Script.pubKeyLength (data.headD 0)
  length ≠ 0 ∧ length = data.length

def isCompressedOrUncompressedPubKey (data : Bytes) : Bool :=
  if data.length < 33 then false
  else if data.headD 0 = 4 then data.length = 65
  else if data.headD 0 = 2 ∨ data.headD 0 = 3 then data.length = 33
  else false

/-- An integer of a signature: not empty, not negative, and without a zero byte that
it does not need. -/
def isValidInteger (data : Bytes) : Bool :=
  match data with
  | [] => false
  | [byte] => ¬ byte.msb
  | byte :: next :: _ => ¬ byte.msb ∧ (byte ≠ 0 ∨ next.msb)

def isValidSignatureEncoding (sig : Bytes) : Bool :=
  let byte (i : ℕ) : ℕ := (sig.getD i 0).toNat
  let lenR := byte 3
  let lenS := byte (5 + lenR)
  9 ≤ sig.length ∧ sig.length ≤ 73
    ∧ byte 0 = 0x30 ∧ byte 1 = sig.length - 3
    ∧ 5 + lenR < sig.length ∧ lenR + lenS + 7 = sig.length
    ∧ byte 2 = 0x02 ∧ isValidInteger ((sig.drop 4).take lenR)
    ∧ byte (lenR + 4) = 0x02 ∧ isValidInteger ((sig.drop (lenR + 6)).take lenS)

def isDefinedHashtypeSignature (sig : Bytes) : Bool :=
  match sig.getLast? with
  | none => false
  | some byte => 1 ≤ byte &&& ~~~0x80 ∧ byte &&& ~~~0x80 ≤ 3

/-- `CheckSignatureEncoding` with `CPubKey::CheckLowS`; a high value leaves the error
as it is. -/
def checkSignatureEncoding (checkLowS : Bytes → Bool) (flags : VerifyFlags) (sig : Bytes) :
    Except ScriptError Unit :=
  if sig = [] then .ok ()
  else if (flags.derSig ∨ flags.lowS ∨ flags.strictEnc) ∧ ¬ isValidSignatureEncoding sig then
    .error .sigDer
  else if flags.lowS ∧ ¬ checkLowS sig.dropLast then .error .unknownError
  else if flags.strictEnc ∧ ¬ isDefinedHashtypeSignature sig then .error .sigHashtype
  else .ok ()

def checkPubKeyEncoding (flags : VerifyFlags) (pubKey : Bytes) : Except ScriptError Unit :=
  if flags.strictEnc ∧ ¬ isCompressedOrUncompressedPubKey pubKey then .error .pubkeyType
  else .ok ()

def OP_0 : Byte := 0x00
def OP_1NEGATE : Byte := 0x4f

def checkMinimalPush (data : Bytes) (opcode : Byte) : Bool :=
  match data with
  | [] => opcode = OP_0
  | byte :: rest =>
    if rest = [] ∧ 1 ≤ byte ∧ byte ≤ 16 then opcode = OP_1 + (byte - 1)
    else if rest = [] ∧ byte = 0x81 then opcode = OP_1NEGATE
    else if data.length ≤ 75 then opcode.toNat = data.length
    else if data.length ≤ 255 then opcode = OP_PUSHDATA1
    else if data.length ≤ 65535 then opcode = OP_PUSHDATA2
    else true

end Amberchain.Interpreter

/-!
# Script numbers

The stack of a script holds byte strings.  An operation reads them as booleans or as
numbers with a sign bit, and writes its results back in the shortest form.
-/

namespace Amberchain.Interpreter

/-- `CastToBool`: a negative zero is false. -/
def castToBool (data : Bytes) : Bool :=
  match data.dropWhile fun byte => byte = 0 with
  | [] => false
  | byte :: rest => ¬ (rest = [] ∧ byte = 0x80)

def vchFalse : Bytes := []

def vchTrue : Bytes := [1]

def vchOf (value : Bool) : Bytes :=
  if value then vchTrue else vchFalse

@[simp]
theorem castToBool_vchOf (value : Bool) : castToBool (vchOf value) = value := by
  cases value <;> rfl

def nMaxNumSize : ℕ := 4

def setVch (data : Bytes) : ℤ :=
  let value := getLE data data.length
  match data.getLast? with
  | none => 0
  | some byte => if byte.msb then -(value - 0x80 * 256 ^ (data.length - 1)) else value

/-- The number is encoded with the least number of bytes. -/
def isMinimal (data : Bytes) : Bool :=
  match data.reverse with
  | [] => true
  | last :: before => last &&& 0x7f ≠ 0 ∨ (before.headD 0).msb

/-- `CScriptNum` of an element; none is the exception. -/
def scriptNum (requireMinimal : Bool) (data : Bytes) : Option ℤ :=
  if nMaxNumSize < data.length then none
  else if requireMinimal ∧ ¬ isMinimal data then none
  else some (setVch data)

def getInt (value : ℤ) : ℤ :=
  if 2 ^ 31 - 1 < value then 2 ^ 31 - 1 else if value < -2 ^ 31 then -2 ^ 31 else value

def magnitude : ℕ → ℕ → Bytes
  | 0, _ => []
  | size + 1, value =>
    if value = 0 then [] else BitVec.ofNat 8 value :: magnitude size (value / 256)

def serialize (value : ℤ) : Bytes :=
  match (magnitude 8 value.natAbs).reverse with
  | [] => []
  | last :: before =>
    if last.msb then ((if value < 0 then 0x80 else 0) :: last :: before).reverse
    else if value < 0 then ((last ||| 0x80) :: before).reverse
    else (last :: before).reverse

theorem scriptNum_small (requireMinimal : Bool) {value : ℕ} (hpos : 1 ≤ value)
    (hle : value ≤ 16) : scriptNum requireMinimal (serialize value) = some (value : ℤ) := by
  cases requireMinimal <;> interval_cases value <;> rfl

example : serialize (-255) = [0xff, 0x80] ∧ scriptNum true [0xff, 0x80] = some (-255) := by
  decide

end Amberchain.Interpreter

/-!
# Operations on the stacks

The operations of the script interpreter that read and write nothing but the stack and
the alternative stack.  The first element of a list is the top of its stack.
-/

namespace Amberchain.Interpreter

def OP_NOP : Byte := 0x61
def OP_VERIFY : Byte := 0x69
def OP_TOALTSTACK : Byte := 0x6b
def OP_FROMALTSTACK : Byte := 0x6c
def OP_2DROP : Byte := 0x6d
def OP_2DUP : Byte := 0x6e
def OP_3DUP : Byte := 0x6f
def OP_2OVER : Byte := 0x70
def OP_2ROT : Byte := 0x71
def OP_2SWAP : Byte := 0x72
def OP_IFDUP : Byte := 0x73
def OP_DEPTH : Byte := 0x74
def OP_NIP : Byte := 0x77
def OP_OVER : Byte := 0x78
def OP_PICK : Byte := 0x79
def OP_ROLL : Byte := 0x7a
def OP_ROT : Byte := 0x7b
def OP_SWAP : Byte := 0x7c
def OP_TUCK : Byte := 0x7d
def OP_SIZE : Byte := 0x82
def OP_1ADD : Byte := 0x8b
def OP_1SUB : Byte := 0x8c
def OP_NEGATE : Byte := 0x8f
def OP_ABS : Byte := 0x90
def OP_NOT : Byte := 0x91
def OP_0NOTEQUAL : Byte := 0x92
def OP_ADD : Byte := 0x93
def OP_SUB : Byte := 0x94
def OP_BOOLAND : Byte := 0x9a
def OP_BOOLOR : Byte := 0x9b
def OP_NUMEQUAL : Byte := 0x9c
def OP_NUMEQUALVERIFY : Byte := 0x9d
def OP_NUMNOTEQUAL : Byte := 0x9e
def OP_LESSTHAN : Byte := 0x9f
def OP_GREATERTHAN : Byte := 0xa0
def OP_LESSTHANOREQUAL : Byte := 0xa1
def OP_GREATERTHANOREQUAL : Byte := 0xa2
def OP_MIN : Byte := 0xa3
def OP_MAX : Byte := 0xa4
def OP_WITHIN : Byte := 0xa5
def OP_RIPEMD160 : Byte := 0xa6
def OP_SHA1 : Byte := 0xa7
def OP_SHA256 : Byte := 0xa8
def OP_HASH256 : Byte := 0xaa
def OP_NOP1 : Byte := 0xb0
def OP_NOP10 : Byte := 0xb9

structure HashFunctions where
  ripemd160 : Bytes → Hash160
  sha1 : Bytes → Hash160
  sha256 : Bytes → Hash256
  hash160 : Bytes → Hash160
  hash256 : Bytes → Hash256

/-- `stack` and `altstack` -/
structure Stacks where
  main : List Bytes
  alt : List Bytes
deriving DecidableEq

variable (hashes : HashFunctions) (flags : VerifyFlags)

def moveOp (opcode : Byte) (state : Stacks) : Except ScriptError Stacks :=
  let goOn (main : List Bytes) : Except ScriptError Stacks := .ok { state with main := main }
  let short : Except ScriptError Stacks := .error .invalidStackOperation
  if opcode = OP_TOALTSTACK then
    match state.main with
    | x :: rest => .ok ⟨rest, x :: state.alt⟩
    | _ => short
  else if opcode = OP_FROMALTSTACK then
    match state.alt with
    | x :: alt => .ok ⟨x :: state.main, alt⟩
    | _ => .error .invalidAltstackOperation
  else if opcode = OP_2DROP then
    match state.main with
    | _ :: _ :: rest => goOn rest
    | _ => short
  else if opcode = OP_2DUP then
    match state.main with
    | x2 :: x1 :: rest => goOn (x2 :: x1 :: x2 :: x1 :: rest)
    | _ => short
  else if opcode = OP_3DUP then
    match state.main with
    | x3 :: x2 :: x1 :: rest => goOn (x3 :: x2 :: x1 :: x3 :: x2 :: x1 :: rest)
    | _ => short
  else if opcode = OP_2OVER then
    match state.main with
    | x4 :: x3 :: x2 :: x1 :: rest => goOn (x2 :: x1 :: x4 :: x3 :: x2 :: x1 :: rest)
    | _ => short
  else if opcode = OP_2ROT then
    match state.main with
    | x6 :: x5 :: x4 :: x3 :: x2 :: x1 :: rest => goOn (x2 :: x1 :: x6 :: x5 :: x4 :: x3 :: rest)
    | _ => short
  else if opcode = OP_2SWAP then
    match state.main with
    | x4 :: x3 :: x2 :: x1 :: rest => goOn (x2 :: x1 :: x4 :: x3 :: rest)
    | _ => short
  else if opcode = OP_IFDUP then
    match state.main with
    | x :: rest => goOn (if castToBool x then x :: x :: rest else x :: rest)
    | _ => short
  else if opcode = OP_DEPTH then goOn (serialize state.main.length :: state.main)
  else if opcode = OP_DROP then
    match state.main with
    | _ :: rest => goOn rest
    | _ => short
  else if opcode = OP_DUP then
    match state.main with
    | x :: rest => goOn (x :: x :: rest)
    | _ => short
  else if opcode = OP_NIP then
    match state.main with
    | x2 :: _ :: rest => goOn (x2 :: rest)
    | _ => short
  else if opcode = OP_OVER then
    match state.main with
    | x2 :: x1 :: rest => goOn (x1 :: x2 :: x1 :: rest)
    | _ => short
  else if opcode = OP_PICK ∨ opcode = OP_ROLL then
    match state.main with
    | count :: x :: rest =>
      match scriptNum flags.minimalData count with
      | none => .error .unknownError
      | some value =>
        let n := getInt value
        if n < 0 ∨ ((x :: rest).length : ℤ) ≤ n then short
        else
          let left := if opcode = OP_ROLL then (x :: rest).eraseIdx n.toNat else x :: rest
          goOn ((x :: rest).getD n.toNat [] :: left)
    | _ => short
  else if opcode = OP_ROT then
    match state.main with
    | x3 :: x2 :: x1 :: rest => goOn (x1 :: x3 :: x2 :: rest)
    | _ => short
  else if opcode = OP_SWAP then
    match state.main with
    | x2 :: x1 :: rest => goOn (x1 :: x2 :: rest)
    | _ => short
  else if opcode = OP_TUCK then
    match state.main with
    | x2 :: x1 :: rest => goOn (x2 :: x1 :: x2 :: rest)
    | _ => short
  else if opcode = OP_SIZE then
    match state.main with
    | x :: rest => goOn (serialize x.length :: x :: rest)
    | _ => short
  else .error .badOpcode

/-- `OP_EQUAL` and `OP_EQUALVERIFY` -/
def equalOp (opcode : Byte) (state : Stacks) : Except ScriptError Stacks :=
  match state.main with
  | x2 :: x1 :: rest =>
    if opcode = OP_EQUALVERIFY then
      if x1 = x2 then .ok { state with main := rest } else .error .equalVerify
    else .ok { state with main := vchOf (x1 = x2) :: rest }
  | _ => .error .invalidStackOperation

/-- The number that an operation with one operand pushes. -/
def unaryValue (opcode : Byte) (n : ℤ) : ℤ :=
  if opcode = OP_1ADD then n + 1
  else if opcode = OP_1SUB then n - 1
  else if opcode = OP_NEGATE then -n
  else if opcode = OP_ABS then |n|
  else if opcode = OP_NOT then if n = 0 then 1 else 0
  else if n ≠ 0 then 1 else 0

/-- The operations `OP_1ADD` to `OP_0NOTEQUAL` on one number. -/
def unaryOp (opcode : Byte) (state : Stacks) : Except ScriptError Stacks :=
  match state.main with
  | x :: rest =>
    match scriptNum flags.minimalData x with
    | none => .error .unknownError
    | some n => .ok { state with main := serialize (unaryValue opcode n) :: rest }
  | _ => .error .invalidStackOperation

/-- The number that an operation with two operands pushes. -/
def binaryValue (opcode : Byte) (n1 n2 : ℤ) : ℤ :=
  let truth (value : Bool) : ℤ := if value then 1 else 0
  if opcode = OP_ADD then n1 + n2
  else if opcode = OP_SUB then n1 - n2
  else if opcode = OP_BOOLAND then truth (n1 ≠ 0 ∧ n2 ≠ 0)
  else if opcode = OP_BOOLOR then truth (n1 ≠ 0 ∨ n2 ≠ 0)
  else if opcode = OP_NUMEQUAL ∨ opcode = OP_NUMEQUALVERIFY then truth (n1 = n2)
  else if opcode = OP_NUMNOTEQUAL then truth (n1 ≠ n2)
  else if opcode = OP_LESSTHAN then truth (n1 < n2)
  else if opcode = OP_GREATERTHAN then truth (n2 < n1)
  else if opcode = OP_LESSTHANOREQUAL then truth (n1 ≤ n2)
  else if opcode = OP_GREATERTHANOREQUAL then truth (n2 ≤ n1)
  else if opcode = OP_MIN then if n1 < n2 then n1 else n2
  else if n2 < n1 then n1 else n2

/-- The operations `OP_ADD` to `OP_MAX` on two numbers. -/
def binaryOp (opcode : Byte) (state : Stacks) : Except ScriptError Stacks :=
  match state.main with
  | x2 :: x1 :: rest =>
    match scriptNum flags.minimalData x1, scriptNum flags.minimalData x2 with
    | some n1, some n2 =>
      let value := serialize (binaryValue opcode n1 n2)
      if opcode = OP_NUMEQUALVERIFY then
        if castToBool value then .ok { state with main := rest } else .error .numEqualVerify
      else .ok { state with main := value :: rest }
    | _, _ => .error .unknownError
  | _ => .error .invalidStackOperation

/-- `OP_WITHIN` -/
def withinOp (state : Stacks) : Except ScriptError Stacks :=
  match state.main with
  | x3 :: x2 :: x1 :: rest =>
    match scriptNum flags.minimalData x1, scriptNum flags.minimalData x2,
        scriptNum flags.minimalData x3 with
    | some n1, some n2, some n3 =>
      .ok { state with main := vchOf (n2 ≤ n1 ∧ n1 < n3) :: rest }
    | _, _, _ => .error .unknownError
  | _ => .error .invalidStackOperation

def hashValue (opcode : Byte) (data : Bytes) : Bytes :=
  if opcode = OP_RIPEMD160 then putLE (hashes.ripemd160 data).toNat 20
  else if opcode = OP_SHA1 then putLE (hashes.sha1 data).toNat 20
  else if opcode = OP_SHA256 then putLE (hashes.sha256 data).toNat 32
  else if opcode = OP_HASH160 then putLE (hashes.hash160 data).toNat 20
  else putLE (hashes.hash256 data).toNat 32

/-- The operations `OP_RIPEMD160` to `OP_HASH256`. -/
def hashOp (opcode : Byte) (state : Stacks) : Except ScriptError Stacks :=
  match state.main with
  | x :: rest => .ok { state with main := hashValue hashes opcode x :: rest }
  | _ => .error .invalidStackOperation

/-- `OP_VERIFY` -/
def verifyOp (state : Stacks) : Except ScriptError Stacks :=
  match state.main with
  | x :: rest => if castToBool x then .ok { state with main := rest } else .error .verify
  | _ => .error .invalidStackOperation

/-- The operations that push a number from `-1` to `16`. -/
def smallIntegerOp (opcode : Byte) (state : Stacks) : Stacks :=
  { state with main := serialize ((opcode.toNat : ℤ) - 0x50) :: state.main }

/-- An opcode between two others. -/
def inRange (first last opcode : Byte) : Bool :=
  first ≤ opcode ∧ opcode ≤ last

/-- What an executed operation does that is neither a push of data nor a condition nor
about signatures. -/
def stackOp (opcode : Byte) (state : Stacks) : Except ScriptError Stacks :=
  if opcode = OP_1NEGATE ∨ inRange OP_1 OP_16 opcode then .ok (smallIntegerOp opcode state)
  else if opcode = OP_NOP then .ok state
  else if inRange OP_NOP1 OP_NOP10 opcode then
    if flags.discourageUpgradableNops then .error .discourageUpgradableNops else .ok state
  else if opcode = OP_VERIFY then verifyOp state
  else if opcode = OP_RETURN then .error .opReturn
  else if inRange OP_TOALTSTACK OP_TUCK opcode ∨ opcode = OP_SIZE then
    moveOp flags opcode state
  else if opcode = OP_EQUAL ∨ opcode = OP_EQUALVERIFY then equalOp opcode state
  else if opcode = OP_1ADD ∨ opcode = OP_1SUB ∨ inRange OP_NEGATE OP_0NOTEQUAL opcode then
    unaryOp flags opcode state
  else if opcode = OP_ADD ∨ opcode = OP_SUB ∨ inRange OP_BOOLAND OP_MAX opcode then
    binaryOp flags opcode state
  else if opcode = OP_WITHIN then withinOp flags state
  else if inRange OP_RIPEMD160 OP_HASH256 opcode then hashOp hashes opcode state
  else .error .badOpcode

end Amberchain.Interpreter
