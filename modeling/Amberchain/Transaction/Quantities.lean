import Amberchain.Entity.Store
import Amberchain.Script.Elements

/-!
# Asset quantities

What the spent outputs of a transaction carry of each asset, what its outputs
carry, and the comparison of the two.  Quantities are added in signed 64-bit
integers, one row for each full reference.
-/

namespace Amberchain.Transaction

open Entity

def MC_SCR_ASSET_SCRIPT_TYPE_TRANSFER : BitVec 32 := 1
def MC_SCR_ASSET_SCRIPT_TYPE_FOLLOWON : BitVec 32 := 2

def MC_AST_ASSET_QUANTITY_SIZE : ℕ := 8

structure AmountRow where
  ref : FullRef
  quantity : BitVec 64
  scriptType : BitVec 32
deriving DecidableEq

/-- An `mc_Buffer` of amounts; its key is the full reference. -/
abbrev Amounts := List AmountRow

namespace Amounts

variable (amounts : Amounts) (ref : FullRef)

def seek : Option ℕ :=
  amounts.findIdx? fun row => row.ref = ref

def getRow (index : ℕ) : AmountRow :=
  amounts.getD index ⟨ref, 0, 0⟩

/-- The row that `Seek` finds. -/
def row : Option AmountRow :=
  amounts.find? fun row => row.ref = ref

def quantity : BitVec 64 :=
  ((amounts.row ref).map AmountRow.quantity).getD 0

end Amounts

structure AssetItem where
  ref : FullRef
  quantity : BitVec 64
deriving DecidableEq

variable (params : ChainParams)

def assetItems : ℕ → Bytes → List AssetItem
  | 0, _ => []
  | items + 1, data =>
    let size := assetRefSize params
    ⟨makeFullRef params (BitVec.ofNat 256 (getLE data size)),
        BitVec.ofNat 64 (getLE (data.drop size) MC_AST_ASSET_QUANTITY_SIZE)⟩
      :: assetItems items (data.drop (size + MC_AST_ASSET_QUANTITY_SIZE))

def quantitiesElement (script : McScript) (scriptType : BitVec 32) :
    Except McError (BitVec 32 × List AssetItem) :=
  let read (type : BitVec 32) (marker : Byte) : Except McError (BitVec 32 × Bytes) :=
    if scriptType &&& type = 0 then .error .wrongScript
    else
      (script.payload MC_DCT_SCRIPT_MULTICHAIN_IDENTIFIER marker
        (fun size => MC_DCT_SCRIPT_HEADER_SIZE ≤ size)).map fun data => (type, data)
  if script.current = none then .error .invalidParameterValue
  else
    match read MC_SCR_ASSET_SCRIPT_TYPE_TRANSFER MC_DCT_SCRIPT_MULTICHAIN_ASSET_QUANTITY_PREFIX
        <|> read MC_SCR_ASSET_SCRIPT_TYPE_FOLLOWON MC_DCT_SCRIPT_MULTICHAIN_ASSET_FOLLOWON_PREFIX
      with
    | .error _ => .error .wrongScript
    | .ok (found, data) =>
      let itemSize := assetRefSize params + MC_AST_ASSET_QUANTITY_SIZE
      let items := data.length / itemSize
      if data.length ≠ items * itemSize then .error .wrongScript
      else .ok (found, assetItems params items data)

/-- One round of the loop of `GetAssetQuantities`.  The script type is kept from
round to round. -/
def addItem (state : Amounts × BitVec 32) (item : AssetItem) :
    Except McError (Amounts × BitVec 32) :=
  let (amounts, found) := state
  if item.quantity.msb then .error .notAllowed
  else
    match amounts.seek item.ref with
    | none => .ok (amounts ++ [⟨item.ref, item.quantity, found⟩], found)
    | some index =>
      let last := amounts.getRow item.ref index
      let quantity := item.quantity + last.quantity
      -- protection from overflow
      if ¬ last.quantity.msb ∧ quantity.msb then .error .notAllowed
      else
        let found := found ||| last.scriptType
        .ok (amounts.set index { last with quantity := quantity, scriptType := found }, found)

def getAssetQuantities (script : McScript) (amounts : Amounts) (scriptType : BitVec 32) :
    Except McError Amounts := do
  let (found, items) ← quantitiesElement params script scriptType
  let (amounts, _) ← items.foldlM addItem (amounts, found)
  return amounts

def addGenesis (amounts : Amounts) (ref : FullRef) (quantity : BitVec 64) : Amounts :=
  match amounts.seek ref with
  | none => amounts ++ [⟨ref, quantity, 0⟩]
  | some index =>
    let last := amounts.getRow ref index
    amounts.set index { last with quantity := quantity + last.quantity }

variable (assets : AssetDB)

/-- The genesis part of one round of `mc_ExtractInputAssetQuantities`. -/
def extractInputGenesis (script : McScript) (hash : Hash256) (amounts : Amounts) :
    Except String Amounts :=
  match script.getAssetGenesis with
  | .error .wrongScript => .ok amounts
  | .error _ => .error "Asset transfer script rejected - error in input issue script"
  | .ok quantity =>
    match assets.findEntityByTxID hash with
    | none => .error "Asset transfer script rejected - issue tx not found"
    | some entity =>
      if ¬ params.shortTxIDInTx ∧ entity.isUnconfirmedGenesis then
        .error "Asset transfer script rejected - using unconfirmed issue"
      else .ok (addGenesis amounts (entity.fullRef params) quantity)

/-- The transfers of one element; an element of another kind adds nothing. -/
def extractTransfers (script : McScript) (scriptType : BitVec 32) (reason : String)
    (amounts : Amounts) : Except String Amounts :=
  match getAssetQuantities params script amounts scriptType with
  | .ok amounts => .ok amounts
  | .error .wrongScript => .ok amounts
  | .error _ => .error reason

def inputTypes : BitVec 32 :=
  MC_SCR_ASSET_SCRIPT_TYPE_TRANSFER ||| MC_SCR_ASSET_SCRIPT_TYPE_FOLLOWON

/-- One round of `mc_ExtractInputAssetQuantities`. -/
def extractInputElement (script : McScript) (hash : Hash256) (amounts : Amounts)
    (element : ℕ) : Except String Amounts := do
  let script := script.setElement element
  let amounts ← extractTransfers params script inputTypes
    "Asset transfer script rejected - error in script" amounts
  extractInputGenesis params assets script hash amounts

/-- `mc_ExtractInputAssetQuantities`: the script of a spent output and the hash of
its transaction. -/
def extractInputAssetQuantities (script : Bytes) (hash : Hash256) (amounts : Amounts) :
    Except String Amounts :=
  let script := McScript.setScript params script
  (List.range script.numElements).foldlM (extractInputElement params assets script hash) amounts

def extractOutputAssetQuantities (script : McScript) (amounts : Amounts) : Except String Amounts :=
  (List.range script.numElements).foldlM
    (fun amounts element =>
      extractTransfers params (script.setElement element) MC_SCR_ASSET_SCRIPT_TYPE_TRANSFER
        "Asset transfer script rejected - error in output transfer script" amounts)
    amounts

def matched (row : AmountRow) (others : Amounts) : Bool :=
  if 0 < row.quantity.toInt then
    match others.seek row.ref with
    | none => false
    | some index =>
      let other := others.getRow row.ref index
      row.ref = other.ref ∧ row.quantity = other.quantity
  else true

def compareAssetQuantities (amountsIn amountsOut : Amounts) : Except String Unit := do
  let mismatch := "Asset transfer script rejected - mismatch in input/output quantities"
  amountsIn.forM fun row =>
    if matched row amountsOut then .ok () else .error mismatch
  amountsOut.forM fun row =>
    if params.shortTxIDInTx ∧ (assets.findEntityByFullRef row.ref).isNone then
      .error "Asset transfer script rejected - asset not found"
    else if matched row amountsIn then .ok ()
    else .error mismatch

structure SpentOutput where
  script : Bytes
  hash : Hash256

def inputAmounts (spent : List SpentOutput) : Except String Amounts :=
  spent.foldlM
    (fun amounts output =>
      extractInputAssetQuantities params assets output.script output.hash amounts) []

/-- The amounts of all outputs that are not `OP_RETURN` outputs. -/
def outputAmounts (created : List Bytes) : Except String Amounts :=
  created.foldlM
    (fun amounts output =>
      let script := McScript.setScript params output
      if script.isOpReturn then .ok amounts
      else extractOutputAssetQuantities params script amounts) []

/-- The asset part of `AcceptMultiChainTransaction`. -/
def acceptAssetQuantities (spent : List SpentOutput) (created : List Bytes) :
    Except String Unit := do
  let amountsIn ← inputAmounts params assets spent
  let amountsOut ← outputAmounts params created
  compareAssetQuantities params assets amountsIn amountsOut

end Amberchain.Transaction
