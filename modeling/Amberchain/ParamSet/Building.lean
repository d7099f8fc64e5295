import Amberchain.Base.Memory
import Amberchain.ParamSet.ParamList

/-!
# Parameter sets

A parameter set is a buffer with names, sizes and values one behind the other, and for each
parameter of the table the offset and the size of its value.  `m_Size` takes the running
offset of the functions, which the source assigns when they end.
-/

namespace Amberchain.ParamSet

open Memory

/-- Why a function does not return a parameter set: it does what the language leaves
undefined (an access outside of a buffer, a shift by the width of the number), or it returns
an error. -/
inductive Stop where
  | undefined
  | error (err : McError)
deriving DecidableEq

def access {α : Type} : Option α → Except Stop α
  | some value => .ok value
  | none => .error .undefined

def count : ℕ := multichainParamArray.length

/-- `max_size` of `Init`. -/
def maxSize : ℕ :=
  (multichainParamArray.map fun param => maxParamNameSize + 1 + paramSizeBytes + param.room).sum

/-- The bytes that `mc_New` allocates: words of eight bytes. -/
def mcNewSize (size : ℕ) : ℕ :=
  ((size - 1) / 8 + 1) * 8

/-- `mc_MultichainParams` -/
structure MultichainParams where
  /-- `m_lpData` -/
  data : Bytes
  /-- `m_lpCoord`: the offset, negative when the parameter is not set, and the size. -/
  coord : List (ℤ × ℤ)
  /-- `m_Size` -/
  size : ℤ
deriving DecidableEq

namespace MultichainParams

def init : MultichainParams where
  data := List.replicate (mcNewSize maxSize) 0
  coord := List.replicate count (-1, 0)
  size := 0

/-- The offset and the size that `m_lpCoord` has for a parameter. -/
def coordAt (params : MultichainParams) (i : ℕ) : ℤ × ℤ :=
  params.coord.getD i (-1, 0)

/-- The lines that all functions share: the name, the value and its size are written at the
end of the data, in this order of the accesses. -/
def append (params : MultichainParams) (i : ℕ) (key : Bytes) (size : ℤ) (value : Bytes) :
    Except Stop MultichainParams := do
  let named ← access (write params.data params.size (key ++ [0]))
  let offset := params.size + (key.length + 1)
  let filled ← (if 0 < size then access (write named (offset + paramSizeBytes) value)
    else .ok named)
  let data ← access (write filled offset (putLE (BitVec.ofInt 16 size).toNat paramSizeBytes))
  .ok { data
        coord := params.coord.set i (offset + paramSizeBytes, size)
        size := offset + paramSizeBytes + size }

/-- `mc_MultichainParams::GetParam`: the offset in the data and the size. -/
def getParam (params : MultichainParams) (key : Bytes) : Option (ℤ × ℤ) :=
  match index key with
  | none => none
  | some i => if (params.coordAt i).1 < 0 then none else some (params.coordAt i)

/-- The bytes behind the pointer of `GetParam`. -/
def valueAt (params : MultichainParams) (coord : ℤ × ℤ) : Except Stop Bytes :=
  access (read params.data coord.1 coord.2)

/-- `mc_GetLE` on a value: a number of 64 bits. -/
def numberAt (params : MultichainParams) (coord : ℤ × ℤ) : Except Stop ℤ :=
  if coord.2 ≤ 0 then .ok 0
  else if 8 < coord.2 then .error .undefined
  else do
    let bytes ← params.valueAt coord
    .ok (BitVec.ofNat 64 (getLE bytes bytes.length)).toInt

def getInt64Param (params : MultichainParams) (name : String) : Except Stop ℤ :=
  match params.getParam (cstr name) with
  | some coord => params.numberAt coord
  | none =>
    match index (cstr name) with
    | none => .ok (-1)
    | some i => .ok ((multichainParamArray[i]?.map (·.defaultIntegerValue)).getD (-1))

/-- `strcmp((char*)GetParam(name,NULL),text) == 0` -/
def textIs (params : MultichainParams) (name text : String) : Except Stop Bool :=
  match params.getParam (cstr name) with
  | none => .error .undefined
  | some coord =>
    let stored := params.data.drop coord.1.toNat
    if cstr text ++ [0] <+: stored then .ok true
    else if stored <+: cstr text ++ [0] then .error .undefined
    else .ok false

/-- `(int)GetInt64Param("protocolversion")` -/
def chainVersion (params : MultichainParams) : Except Stop ℤ := do
  let version ← params.getInt64Param "protocolversion"
  .ok (BitVec.ofInt 32 version).toInt

/-- `mc_MultichainParams::ProtocolVersion`, with the version of an upgraded chain or zero. -/
def protocolVersion (params : MultichainParams) (upgraded : ℤ) : Except Stop ℤ :=
  if upgraded ≠ 0 then .ok upgraded
  else
    match params.getParam (cstr "protocolversion") with
    | none => .ok 0
    | some coord => do
      let bytes ← params.valueAt (coord.1, 4)
      .ok (BitVec.ofNat 32 (getLE bytes 4)).toInt

/-- `take_it` of `CalculateHash`. -/
def takeIt (params : MultichainParams) (param : OneMultichainParam) : Except Stop Bool := do
  let version ← params.chainVersion
  if param.isRelevant version then
    .ok (param.source ≠ .comment && !param.noHash
      && !(0 < param.removed && param.removed ≤ version))
  else
    match param.dataType with
    | .boolean | .int32 | .uint32 | .int64 => do
      let value ← params.getInt64Param param.name
      .ok (value ≠ param.defaultIntegerValue)
    | .string =>
      if param.name = "rootstreamname" then do
        let isRoot ← params.textIs param.name "root"
        .ok !isRoot
      else .ok true
    | .binary => .ok (param.name ≠ "genesisopreturnscript")
    | .double => .ok true

/-- What `CalculateHash` writes for a parameter. -/
def hashedValue (params : MultichainParams) (entry : OneMultichainParam × ℕ) :
    Except Stop Bytes := do
  let take ← params.takeIt entry.1
  if take && 0 < (params.coordAt entry.2).2 then params.valueAt (params.coordAt entry.2)
  else .ok []

def calculateHash (sha256 : Bytes → Bytes) (params : MultichainParams) : Except Stop Bytes := do
  let values ← multichainParamArray.zipIdx.mapM params.hashedValue
  .ok (sha256 (sha256 values.flatten))

/-- The variables of the loop of `Set`: the parameter set built so far, with the offset as
its size, and `size` and `j`. -/
structure SetState where
  params : MultichainParams
  size : ℤ
  j : ℤ
deriving DecidableEq

/-- The lines of `Set` on a name and the size behind it, when the value lies in the source. -/
def setValue (source : Bytes) (key : Bytes) (state : SetState) : Except Stop SetState :=
  match index key with
  | none => .ok { state with j := state.j + state.size }
  | some i =>
    if (state.params.coordAt i).1 < 0 then do
      let value ← (if 0 < state.size then access (read source state.j state.size) else .ok [])
      let params ← state.params.append i key state.size value
      .ok { state with params, j := state.j + state.size }
    else .ok { state with j := state.j + state.size }

/-- The lines of `Set` on a name: without room for a size, `size` keeps its value. -/
def setEntry (source : Bytes) (key : Bytes) (state : SetState) : Except Stop SetState := do
  let j := state.j + (key.length + 1)
  let size ← (if j + paramSizeBytes ≤ source.length then do
      let bytes ← access (read source j paramSizeBytes)
      .ok (getLE bytes paramSizeBytes : ℤ)
    else .ok state.size)
  let next : SetState := { state with size, j := j + paramSizeBytes }
  if next.j + size ≤ source.length then setValue source key next else .ok next

/-- One turn of the loop of `Set`: the next state, or none when the loop is left. -/
def setStep (source : Bytes) (state : SetState) : Except Stop (Option SetState) :=
  if state.j < source.length then do
    let first ← access (read source state.j 1)
    if first = [0] then .ok none
    else do
      let key ← access (readUntil 0 source state.j)
      let next ← setEntry source key state
      .ok (some next)
  else .ok none

/-- The loop of `Set`, or none when it still runs after as many turns. -/
def setLoop (source : Bytes) : ℕ → SetState → Option (Except Stop MultichainParams)
  | 0, _ => none
  | fuel + 1, state =>
    match setStep source state with
    | .error stop => some (.error stop)
    | .ok none => some (.ok state.params)
    | .ok (some next) => setLoop source fuel next

/-- `mc_MultichainParams::Set`, with what the stack holds where `size` has no value yet. -/
def set (source : Bytes) (unset : BitVec 32) (fuel : ℕ) : Option (Except Stop MultichainParams) :=
  setLoop source fuel ⟨init, unset.toInt, 0⟩

end MultichainParams

end Amberchain.ParamSet

/-!
# How a node builds its parameter set

From the configuration of the chain, from another parameter set, by the defaults that
`Validate` adds and by the values that are calculated with the genesis block.
-/

namespace Amberchain.ParamSet

/-- What `Create` draws at random. -/
structure Draws where
  networkPort : BitVec 32
  messageStart : BitVec 32

/-- What the functions read besides their arguments: the protocol version of the node, and
the conversions of decimal fractions. -/
structure Node where
  protocolVersion : ℤ
  /-- `MC_PRM_INT32` with `MC_PRM_DECIMAL`. -/
  decimal : Bytes → BitVec 32
  /-- `MC_PRM_UINT32` with `MC_PRM_DECIMAL`. -/
  unsignedDecimal : Bytes → BitVec 32
  /-- The bits of `atof`. -/
  atof : Bytes → BitVec 64
  /-- `dv > 9.e+18` in `Validate`, from the block time, the interval of halving, the initial
  reward and the reward of the first block. -/
  rewardTooHigh : ℤ → ℤ → ℤ → ℤ → Bool
  sha256 : Bytes → Bytes

/-- `strtoll` in base ten; `atoi`, `atol` and `atoll` are casts of it. -/
def strtoll (text : Bytes) : ℤ :=
  let trimmed := text.dropWhile fun byte => byte = 0x20 || (0x09 ≤ byte && byte ≤ 0x0d)
  let negative := trimmed.head? = some 0x2d
  let digits := if negative || trimmed.head? = some 0x2b then trimmed.drop 1 else trimmed
  let value : ℕ := (digits.takeWhile fun byte => 0x30 ≤ byte && byte ≤ 0x39).foldl
    (fun value byte => 10 * value + (byte.toNat - 0x30)) 0
  if negative then max (-(value : ℤ)) (-2 ^ 63) else min (value : ℤ) (2 ^ 63 - 1)

/-- `c_IsHexNumeric`, less one. -/
def hexDigit (byte : Byte) : Option ℕ :=
  if 0x30 ≤ byte && byte ≤ 0x39 then some (byte.toNat - 0x30)
  else if 0x41 ≤ byte && byte ≤ 0x46 then some (byte.toNat - 0x41 + 10)
  else if 0x61 ≤ byte && byte ≤ 0x66 then some (byte.toNat - 0x61 + 10)
  else none

/-- `mc_HexToBin` on a text of even length, when it reads all of it. -/
def hexToBin : Bytes → Option Bytes
  | high :: low :: rest => do
    let high ← hexDigit high
    let low ← hexDigit low
    let bytes ← hexToBin rest
    some (BitVec.ofNat 8 (16 * high + low) :: bytes)
  | _ => some []

def toLower (byte : Byte) : Byte :=
  if 0x41 ≤ byte && byte ≤ 0x5a then byte + 0x20 else byte

/-- `mc_PutLE` of a number to its lower bytes. -/
def putInt (value : ℤ) (size : ℕ) : Bytes :=
  putLE (BitVec.ofInt 64 value).toNat size

/-- The values of `Create` for `MC_PRM_COMMENT` and `MC_PRM_USER`. -/
def userDefault (param : OneMultichainParam) (chain : Bytes) : Bytes :=
  match param.dataType with
  | .binary => []
  | .string =>
    if param.special then
      if param.name = "chaindescription" then
        -- A name that is too long leaves the zeros of the new buffer.
        if (chain.length : ℤ) + 19 ≤ param.maxStringSize then cstr "MultiChain " ++ chain ++ [0]
        else [0]
      else if param.name = "rootstreamname" then cstr "root" ++ [0]
      else if param.name = "chainprotocol" then cstr "multichain" ++ [0]
      else [0]
    else [0]
  | .boolean => [if param.defaultIntegerValue ≠ 0 then 1 else 0]
  | .int32 | .uint32 => putInt param.defaultIntegerValue 4
  | .int64 => putInt param.defaultIntegerValue 8
  | .double => putLE param.defaultDoubleValue.toNat 8

/-- The values of `Create` for `MC_PRM_GENERATED`. -/
def generatedValue (param : OneMultichainParam) (chain : Bytes) (version : ℤ) (draws : Draws) :
    Except Stop Bytes :=
  if param.name = "defaultnetworkport" then .ok (putLE draws.networkPort.toNat 4)
  else if param.name = "defaultrpcport" then .ok (putLE (draws.networkPort - 1).toNat 4)
  else if param.name = "protocolversion" then .ok (putInt version 4)
  else if param.name = "chainname" then
    if param.maxStringSize < chain.length then .error (.error .invalidParameterValue)
    else .ok (chain ++ [0])
  else if param.name = "networkmessagestart" then .ok (putLE draws.messageStart.toNat 4)
  else if param.name = "addresspubkeyhashversion" then .ok [0x00]
  else if param.name = "addressscripthashversion" then .ok [0x05]
  else if param.name = "privatekeyversion" then .ok [0x80]
  else if param.name = "addresschecksumvalue" then .ok [0, 0, 0, 0]
  else .ok []

namespace MultichainParams

/-- A value written behind the data with its own size. -/
def put (params : MultichainParams) (entry : OneMultichainParam × ℕ) (value : Bytes) :
    Except Stop MultichainParams :=
  params.append entry.2 entry.1.key value.length value

/-- One parameter of `Create`, in the round of a source. -/
def createEntry (chain : Bytes) (version : ℤ) (draws : Draws) (set : Source)
    (params : MultichainParams) (entry : OneMultichainParam × ℕ) : Except Stop MultichainParams :=
  if entry.1.source = set then do
    let value ← (match entry.1.source with
      | .comment | .user => .ok (userDefault entry.1 chain)
      | _ => generatedValue entry.1 chain version draws)
    params.put entry value
  else .ok params

def create (chain : Bytes) (version : ℤ) (draws : Draws) : Except Stop MultichainParams :=
  [Source.comment, .user, .generated].foldlM
    (fun params set =>
      multichainParamArray.zipIdx.foldlM (createEntry chain version draws set) params)
    init

/-- The checks of `Read` on a number that the user may set. -/
def checkRange (param : OneMultichainParam) (text : Bytes) : Except Stop Unit :=
  if param.source = .user ∧
      (param.maxIntegerValue < strtoll text ∨ strtoll text < param.minIntegerValue) then
    .error (.error .invalidParameterValue)
  else .ok ()

/-- The value that `Read` makes of a text. -/
def readValue (node : Node) (param : OneMultichainParam) (text : Bytes) : Except Stop Bytes :=
  match param.dataType with
  | .binary =>
    if text.length % 2 = 1 ∨ param.maxStringSize < (text.length / 2 : ℕ) then
      .error (.error .invalidParameterValue)
    else
      match hexToBin text with
      | some bytes => .ok bytes
      | none => .error (.error .invalidParameterValue)
  | .string =>
    if param.maxStringSize < text.length then .error (.error .invalidParameterValue)
    else .ok (text ++ [0])
  | .boolean =>
    if text.map toLower = cstr "true" then .ok [1] else .ok (putInt (strtoll text) 1)
  | .int32 => do
    checkRange param text
    if param.decimal then .ok (putLE (node.decimal text).toNat 4)
    else .ok (putInt (strtoll text) 4)
  | .uint32 => do
    checkRange param text
    if text.head? = some 0x2d then .error (.error .invalidParameterValue)
    else if param.decimal then .ok (putLE (node.unsignedDecimal text).toNat 4)
    else .ok (putInt (strtoll text) 4)
  | .int64 => do
    checkRange param text
    .ok (putInt (strtoll text) 8)
  | .double => .ok (putLE (node.atof text).toNat 8)

/-- One parameter of `Read`: its text, or its default unless it is still to be generated. -/
def readEntry (node : Node) (config : String → Option Bytes) (withArgs : Bool)
    (defaults params : MultichainParams) (entry : OneMultichainParam × ℕ) :
    Except Stop MultichainParams :=
  match (config entry.1.name).filter (· ≠ cstr "[null]") with
  | some text => do
    let value ← readValue node entry.1 text
    params.put entry value
  | none =>
    if (entry.1.source ≠ .calculated ∧ entry.1.source ≠ .generated) ∨ withArgs then do
      let value ← (match defaults.getParam entry.1.key with
        | some coord => defaults.valueAt coord
        | none => .ok [])
      params.put entry value
    else .ok params

/-- The version for which `Read` creates its defaults. -/
def readVersion (node : Node) (config : String → Option Bytes) (createVersion : ℤ) : ℤ :=
  let configured := ((config "protocolversion").map fun text =>
    (BitVec.ofInt 32 (strtoll text)).toInt).getD 0
  let version := if createVersion ≠ 0 then createVersion else configured
  if version = 0 then node.protocolVersion else version

/-- The size that `GetParam` tells, or zero. -/
def sizeOf (params : MultichainParams) (name : String) : ℤ :=
  ((params.getParam (cstr name)).map Prod.snd).getD 0

/-- The end of `Read`: the versions of addresses and keys are equally long. -/
def checkVersions (params : MultichainParams) : Except Stop MultichainParams :=
  if params.sizeOf "addressscripthashversion" ≠ 0 ∧
      (params.sizeOf "addresspubkeyhashversion" ≠ params.sizeOf "addressscripthashversion" ∨
        params.sizeOf "addresspubkeyhashversion" ≠ params.sizeOf "privatekeyversion") then
    .error (.error .invalidParameterValue)
  else .ok params

/-- `mc_MultichainParams::Read` on a configuration of the file, or of the command line. -/
def read (node : Node) (chain : Bytes) (config : String → Option Bytes) (withArgs : Bool)
    (createVersion : ℤ) (draws : Draws) : Except Stop MultichainParams :=
  if !withArgs ∧ config "chainname" = none then checkVersions init
  else if !withArgs ∧ config "chainname" ≠ some chain then .error (.error .invalidParameterValue)
  else do
    let defaults ← create chain (readVersion node config createVersion) draws
    let params ← multichainParamArray.zipIdx.foldlM (readEntry node config withArgs defaults) init
    checkVersions params

/-- One parameter of `Clone`. -/
def cloneEntry (source defaults params : MultichainParams) (entry : OneMultichainParam × ℕ) :
    Except Stop MultichainParams :=
  let cloned := if entry.1.clone then source.getParam entry.1.key else none
  match cloned, defaults.getParam entry.1.key with
  | some coord, _ => do
    let value ← source.valueAt coord
    params.put entry value
  | none, some coord => do
    let value ← defaults.valueAt coord
    params.put entry value
  | none, none => .ok params

def clone (node : Node) (chain : Bytes) (upgraded : ℤ) (source : MultichainParams)
    (draws : Draws) : Except Stop MultichainParams := do
  let version ← source.protocolVersion upgraded
  let defaults ← create chain (if version = 0 then node.protocolVersion else version) draws
  multichainParamArray.zipIdx.foldlM (cloneEntry source defaults) init

def setParam (params : MultichainParams) (name : String) (value : Bytes) :
    Except Stop MultichainParams :=
  match index (cstr name) with
  | none => .error (.error .internalError)
  | some i =>
    match multichainParamArray[i]? with
    | none => .error (.error .internalError)
    | some param =>
      if param.source ≠ .comment ∧ param.source ≠ .calculated then .error (.error .internalError)
      else if 0 ≤ (params.coordAt i).1 then .error (.error .internalError)
      else params.append i (cstr name) value.length value

/-- The default that `Validate` adds for a parameter of a later version, or none where that
is not supported. -/
def missingDefault (param : OneMultichainParam) : Option Bytes :=
  match param.dataType with
  | .binary => none
  | .string => some (if param.name = "rootstreamname" then cstr "root" ++ [0] else [])
  | .boolean => some [if param.defaultIntegerValue ≠ 0 then 1 else 0]
  | .int64 => some (putInt param.defaultIntegerValue 8)
  | .double => some (putLE param.defaultDoubleValue.toNat 8)
  | .int32 | .uint32 => some (putInt param.defaultIntegerValue 4)

/-- `isGenerated`, `isMinimal` and `isValid`. -/
structure Findings where
  isGenerated : Bool := true
  isMinimal : Bool := true
  isValid : Bool := true
deriving DecidableEq

/-- What `Validate` does with a parameter that is not set. -/
def addMissing (params : MultichainParams) (entry : OneMultichainParam × ℕ) (found : Findings) :
    Except Stop (MultichainParams × Findings) :=
  match entry.1.source with
  | .comment => .ok (params, found)
  | .user => do
    let version ← params.chainVersion
    match entry.1.isRelevant version, missingDefault entry.1 with
    | false, some value => do
      let params ← params.put entry value
      .ok (params, found)
    | _, _ => .ok (params, { found with isGenerated := false, isValid := false })
  | .generated => .ok (params, { found with isGenerated := false, isValid := false })
  | .calculated => do
    let version ← params.chainVersion
    .ok (params, { found with isValid := found.isValid && !entry.1.isRelevant version })

/-- One parameter of `Validate`. -/
def validateEntry (state : MultichainParams × Findings) (entry : OneMultichainParam × ℕ) :
    Except Stop (MultichainParams × Findings) :=
  if (state.1.coordAt entry.2).1 < 0 then do
    let (params, found) ← addMissing state.1 entry state.2
    .ok (params, { found with isMinimal := found.isMinimal && !entry.1.minimal })
  else .ok state

/-- `m_Status` -/
inductive Status where
  | empty
  | minimal
  | error
  | generated
  | invalid
  | valid
deriving DecidableEq

def hashStatus (node : Node) (params : MultichainParams) : Except Stop Status := do
  let hash ← params.calculateHash node.sha256
  match params.getParam (cstr "chainparamshash") with
  | none => .ok .invalid
  | some coord =>
    if coord.2 ≠ 32 then .ok .invalid
    else do
      let multichain ← params.textIs "chainprotocol" "multichain"
      if multichain then do
        let stored ← params.valueAt coord
        .ok (if hash = stored then .valid else .invalid)
      else .ok .valid

def checkGenerated (node : Node) (params : MultichainParams) : Except Stop Status := do
  let blockTime ← params.getInt64Param "targetblocktime"
  let interval ← params.getInt64Param "rewardhalvinginterval"
  let reward ← params.getInt64Param "initialblockreward"
  let firstReward ← params.getInt64Param "firstblockreward"
  if 0 < blockTime ∧ node.rewardTooHigh blockTime interval reward
      (if firstReward < 0 then reward else firstReward) then
    .error (.error .invalidParameterValue)
  else if 90 < params.sizeOf "chaindescription" - 1 then .error (.error .invalidParameterValue)
  else .ok .generated

def validate (node : Node) (params : MultichainParams) : Except Stop (MultichainParams × Status) :=
  if params.size = 0 then .ok (params, .empty)
  else do
    let (params, found) ← multichainParamArray.zipIdx.foldlM validateEntry (params, {})
    let status ← (if found.isValid then params.hashStatus node
      else if found.isGenerated then params.checkGenerated node
      else if found.isMinimal then .ok .minimal
      else .ok .error)
    .ok (params, status)

/-- The parameter sets that a node builds: it reads a configuration or clones a parameter set,
and validates it or adds calculated values. -/
inductive Built (node : Node) : MultichainParams → Prop
  | read {chain : Bytes} {config : String → Option Bytes} {withArgs : Bool} {createVersion : ℤ}
      {draws : Draws} {params : MultichainParams}
      (hread : read node chain config withArgs createVersion draws = .ok params) :
      Built node params
  | clone {chain : Bytes} {upgraded : ℤ} {source : MultichainParams} {draws : Draws}
      {params : MultichainParams} (hsource : Built node source)
      (hclone : clone node chain upgraded source draws = .ok params) : Built node params
  | validate {params next : MultichainParams} {status : Status} (hbuilt : Built node params)
      (hvalidate : validate node params = .ok (next, status)) : Built node next
  | setParam {params next : MultichainParams} {name : String} {value : Bytes}
      (hbuilt : Built node params) (hset : setParam params name value = .ok next) :
      Built node next

end MultichainParams

end Amberchain.ParamSet
