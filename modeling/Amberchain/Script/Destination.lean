import Amberchain.Script.Elements

/-!
# Destinations and signatures in scripts

Which addresses an output script pays to, and with which hash type an input
script is signed.
-/

namespace Amberchain

def OP_DUP : Byte := 0x76
def OP_EQUAL : Byte := 0x87
def OP_EQUALVERIFY : Byte := 0x88
def OP_HASH160 : Byte := 0xa9
def OP_CHECKSIG : Byte := 0xac
def OP_CHECKMULTISIG : Byte := 0xae

/-- `CTxDestination` -/
inductive Destination where
  | none
  | key (id : Hash160)
  | script (id : Hash160)
deriving DecidableEq

/-- The twenty bytes of an address; `none` for no destination. -/
def Destination.address : Destination → Option Hash160
  | .none => Option.none
  | .key id => some id
  | .script id => some id

inductive TxnOutType where
  | nonstandard
  | pubkey
  | pubkeyHash
  | scriptHash
  | multisig
  | nullData
deriving DecidableEq

/-- What `ExtractDestinations` returns.  Addresses read before a script turns out
wrong are returned too. -/
structure Destinations where
  ok : Bool
  type : TxnOutType
  addresses : List Destination
deriving DecidableEq

/-- The functions that scripts need and that are not modelled: the address hash,
the destinations of the protocols before 10009, and the script check. -/
structure ScriptEnv where
  hash160 : Bytes → Hash160
  extractDestinations10008 : Bytes → Destinations

namespace Script

def addressOf (data : Bytes) : Hash160 :=
  BitVec.ofNat 160 (getLE data 20)

/-- `CPubKey::GetLen` -/
def pubKeyLength (header : Byte) : ℕ :=
  if header = 2 ∨ header = 3 then 33
  else if header = 4 ∨ header = 6 ∨ header = 7 then 65
  else 0

variable (env : ScriptEnv) (params : ChainParams)

def vectorToAddress (data : Bytes) : Destination :=
  let length := pubKeyLength (data.headD 0)
  if length ≠ 0 ∧ length = data.length then .key (env.hash160 data) else .none

/-- `GetOp`, and the opcode has to be the given one. -/
def expectOp (opcode : Byte) (script : Bytes) : Option Bytes :=
  match getOp script with
  | none => none
  | some op => if op.opcode = opcode then some op.rest else none

/-- The operations that have to follow. -/
def expectOps (opcodes : List Byte) (script : Bytes) : Option Bytes :=
  opcodes.foldlM (fun rest opcode => expectOp opcode rest) script

/-- The loop of `IsStandardNullData` over the elements before `OP_RETURN`: what
stands behind it. -/
def nullDataTail : ℕ → Bytes → Option Bytes
  | 0, script => expectOp OP_RETURN script
  | drops + 1, script => do
    let op ← getOp script
    if op.opcode = OP_RETURN then some op.rest
    else if OP_PUSHDATA4 < op.opcode then none
    else nullDataTail drops (← expectOp OP_DROP op.rest)

/-- `IsStandardNullData` outside of the standard check, with the fixed extraction
of destinations. -/
def isStandardNullData (script : Bytes) : Bool :=
  match nullDataTail 2 script with
  | none => false
  | some rest =>
    if rest = [] then true
    else if OP_PUSHDATA1.toNat < rest.length then (getOp (skipOp rest)).isNone
    else
      match getOp rest with
      | none => false
      | some op => op.opcode < OP_PUSHDATA1 ∧ (getOp op.rest).isNone

/-- The keys of a bare multisig output, up to the small integer that counts them:
the addresses read so far, and the rest of the script when the count is right. -/
def multisigKeys : ℕ → Bytes → List Destination → List Destination × Option Bytes
  | 0, _, addresses => (addresses, none)
  | fuel + 1, script, addresses =>
    match getOp script with
    | none => (addresses, none)
    | some op =>
      if OP_1 ≤ op.opcode ∧ op.opcode ≤ OP_16 then
        if op.opcode.toNat - (OP_1.toNat - 1) = addresses.length then (addresses, some op.rest)
        else (addresses, none)
      else
        match vectorToAddress env op.data with
        | .none => (addresses, none)
        | address => multisigKeys fuel op.rest (addresses ++ [address])

/-- What `ExtractDestinations` makes of the script before its `OP_DROP` elements:
the type, the addresses, and the rest when the script is right so far. -/
def extractHead (script : Bytes) : TxnOutType × List Destination × Option Bytes :=
  match getOp script with
  | none => (.nonstandard, [], some (skipOp script))
  | some op =>
    -- a hash, then the operations that check it
    let hashed (hash : Bytes) (toDestination : Hash160 → Destination) (type : TxnOutType)
        (checks : List Byte) : TxnOutType × List Destination × Option Bytes :=
      match getOp hash with
      | none => (.nonstandard, [], none)
      | some pushed =>
        if pushed.data.length ≠ 20 then (.nonstandard, [], none)
        else
          let addresses := [toDestination (addressOf pushed.data)]
          match expectOps checks pushed.rest with
          | none => (.nonstandard, addresses, none)
          | some rest => (type, addresses, some rest)
    if op.opcode = OP_DUP then
      match expectOp OP_HASH160 op.rest with
      | none => (.nonstandard, [], none)
      | some hash => hashed hash .key .pubkeyHash [OP_EQUALVERIFY, OP_CHECKSIG]
    else if op.opcode = OP_HASH160 then hashed op.rest .script .scriptHash [OP_EQUAL]
    else if isStandardNullData script then (.nullData, [], none)
    else
      match vectorToAddress env op.data with
      | .none =>
        if OP_1 ≤ op.opcode ∧ op.opcode ≤ OP_16 then
          match multisigKeys env script.length op.rest [] with
          | (addresses, none) => (.nonstandard, addresses, none)
          | (addresses, some rest) =>
            match expectOp OP_CHECKMULTISIG rest with
            | none => (.nonstandard, addresses, none)
            | some rest => (.multisig, addresses, some rest)
        else (.nonstandard, [], none)
      | address =>
        match expectOp OP_CHECKSIG op.rest with
        | none => (.nonstandard, [], none)
        | some rest => (.pubkey, [address], some rest)

/-- The elements behind the destination: each a push and an `OP_DROP`. -/
def onlyDrops : ℕ → Bytes → Bool
  | 0, script => script = []
  | fuel + 1, script =>
    if script = [] then true
    else
      match getOp script with
      | none => false
      | some op =>
        if OP_PUSHDATA4 < op.opcode then false
        else
          match expectOp OP_DROP op.rest with
          | none => false
          | some rest => onlyDrops fuel rest

def extractDestinations (script : Bytes) : Destinations :=
  if ¬ params.fixedDestinationExtraction then env.extractDestinations10008 script
  else
    match extractHead env script with
    | (type, addresses, none) => ⟨false, type, addresses⟩
    | (type, addresses, some rest) =>
      if onlyDrops script.length rest then ⟨true, type, addresses⟩
      else ⟨false, .nonstandard, addresses⟩

def extractDestination (script : Bytes) : Option Destination :=
  let found := extractDestinations env params script
  if ¬ found.ok ∨ found.type = .multisig then none
  else some (found.addresses.headD .none)

/-- The loop of `IsPushOnly`. -/
def pushOnlyFrom : ℕ → Bytes → Bool
  | 0, _ => true
  | fuel + 1, script =>
    if script = [] then true
    else
      match getOp script with
      | none => false
      | some op => if OP_16 < op.opcode then false else pushOnlyFrom fuel op.rest

def isPushOnly (script : Bytes) : Bool :=
  pushOnlyFrom script.length script

/-- `SIGHASH_` types without the flag bits. -/
inductive SigHash where
  | all
  | none
  | single
deriving DecidableEq

/-- How an element of an input script changes the hash type: its last byte is
read as the hash type of a signature. -/
def SigHash.next (type : SigHash) (data : Bytes) : SigHash :=
  match data.getLast? with
  | Option.none => type
  | some byte =>
    if byte &&& 0x1f = 1 then type
    else if byte &&& 0x1f ≠ 3 then .none
    else if type ≠ .none then .single
    else type

/-- The loop of `mc_ExtractAddressFromInputScript`.  The last element is read as
a signature only with `checkLast`. -/
def sigHashFrom (checkLast : Bool) : ℕ → Bytes → SigHash → SigHash
  | 0, _, type => type
  | fuel + 1, script, type =>
    if script = [] then type
    else
      match getOp script with
      | none => .none
      | some op =>
        if OP_16 < op.opcode then .none
        else
          sigHashFrom checkLast fuel op.rest
            (if op.rest ≠ [] ∨ checkLast then type.next op.data else type)

/-- The hash type that `mc_ExtractAddressFromInputScript` finds. -/
def sigHashType (script : Bytes) (checkLast : Bool) : SigHash :=
  if script = [] then .none else sigHashFrom checkLast script.length script .all

end Script

end Amberchain
