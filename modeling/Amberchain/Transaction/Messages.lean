import Amberchain.Script.Setters
import Amberchain.Transaction.Quantities
import Mathlib.Data.List.Nodup

/-!
# Elements are read as what was written

Each `Set…` function of `mc_Script` with each of the `Get…` functions: what the one
writes is read by the other as the same fields, or not at all.
-/

namespace Amberchain.Transaction

open Entity McScript

/-! ## Asset quantities -/

def writtenRef (params : ChainParams) (ref : FullRef) : Bytes :=
  let shift := if params.shortTxIDInTx then 128 else 0
  putLE (ref.ref >>> shift).toNat (assetRefSize params)

/-- The rows of an amounts buffer as `SetAssetQuantities` writes them. -/
def writtenAmounts (params : ChainParams) (amounts : Amounts) : Bytes :=
  amounts.flatMap fun row =>
    writtenRef params row.ref ++ putLE row.quantity.toNat MC_AST_ASSET_QUANTITY_SIZE

def setAssetQuantities (params : ChainParams) (script : McScript) (amounts : Amounts)
    (scriptType : BitVec 32) : Except McError McScript :=
  if scriptType = MC_SCR_ASSET_SCRIPT_TYPE_TRANSFER then
    .ok (script.addTagged MC_DCT_SCRIPT_MULTICHAIN_IDENTIFIER
      MC_DCT_SCRIPT_MULTICHAIN_ASSET_QUANTITY_PREFIX (writtenAmounts params amounts))
  else if scriptType = MC_SCR_ASSET_SCRIPT_TYPE_FOLLOWON then
    .ok (script.addTagged MC_DCT_SCRIPT_MULTICHAIN_IDENTIFIER
      MC_DCT_SCRIPT_MULTICHAIN_ASSET_FOLLOWON_PREFIX (writtenAmounts params amounts))
  else .error .invalidParameterValue

def InTransaction (params : ChainParams) (ref : FullRef) : Prop :=
  ∃ bits : BitVec 256, bits.toNat < 256 ^ assetRefSize params ∧ ref = makeFullRef params bits

/-- Amounts that can be read back: one row for each asset, and no negative
quantities. -/
structure Amounts.Sendable (params : ChainParams) (amounts : Amounts) : Prop where
  refs : ∀ row ∈ amounts, InTransaction params row.ref
  distinct : (amounts.map AmountRow.ref).Nodup
  quantities : ∀ row ∈ amounts, row.quantity.msb = false

/-! ## Messages and getters -/

/-- What a setter is given. -/
inductive Message where
  | permission (type blockFrom blockTo timestamp : BitVec 32)
  | blockSignature (sig : Bytes) (hashType : BitVec 32) (key : Bytes)
  | assetGenesis (quantity : BitVec 64)
  | assetDetails (name : Bytes) (multiple : BitVec 32) (details : Bytes)
  | generalDetails (details : Bytes)
  | approval (value timestamp : BitVec 32)
  | newEntity (type : BitVec 32) (update : Bool) (details : Bytes)
  | newEntityType (type : BitVec 32)
  | itemKey (key : Bytes)
  | entity (shortTxid : BitVec 128)
  | assetQuantities (amounts : Amounts) (scriptType : BitVec 32)

def Message.set (params : ChainParams) (script : McScript) :
    Message → Except McError McScript
  | .permission type blockFrom blockTo timestamp =>
    script.setPermission type blockFrom blockTo timestamp
  | .blockSignature sig hashType key => script.setBlockSignature sig hashType key
  | .assetGenesis quantity => script.setAssetGenesis quantity
  | .assetDetails name multiple details => script.setAssetDetails name multiple details
  | .generalDetails details => script.setGeneralDetails details
  | .approval value timestamp => script.setApproval value timestamp
  | .newEntity type update details => script.setNewEntity type update details
  | .newEntityType type => script.setNewEntityType type
  | .itemKey key => script.setItemKey key
  | .entity shortTxid => script.setEntity shortTxid
  | .assetQuantities amounts scriptType => setAssetQuantities params script amounts scriptType

/-- The messages that the setters are for: names of assets without NUL bytes and of
at most thirty-two bytes, and amounts that can be read back. -/
def Message.Valid (params : ChainParams) : Message → Prop
  | .assetDetails name _ _ => 0 ∉ name ∧ name.length ≤ MC_ENT_MAX_NAME_SIZE
  | .assetQuantities amounts _ => amounts.Sendable params
  | _ => True

/-- A getter, with what the caller gives it. -/
inductive Getter where
  | permission
  | blockSignature (sigSize keySize : ℕ)
  | assetGenesis
  | assetDetails
  | generalDetails
  | approval
  | newEntity
  | newEntityType
  | itemKey
  | entity
  | assetQuantities (scriptType : BitVec 32)

/-- What a getter returns. -/
inductive Decoded where
  | permission (element : PermissionElement)
  | blockSignature (signature : BlockSignature)
  | assetGenesis (quantity : BitVec 64)
  | assetDetails (details : AssetDetails)
  | generalDetails (details : Bytes)
  | approval (value timestamp : ℕ)
  | newEntity (entity : NewEntity)
  | newEntityType (type : ℕ)
  | itemKey (key : Bytes)
  | entity (shortTxid : BitVec 128)
  | assetQuantities (amounts : Amounts)

def Getter.run (params : ChainParams) (script : McScript) : Getter → Except McError Decoded
  | .permission => script.getPermission.map .permission
  | .blockSignature sigSize keySize =>
    (script.getBlockSignature sigSize keySize).map .blockSignature
  | .assetGenesis => script.getAssetGenesis.map .assetGenesis
  | .assetDetails => script.getAssetDetails.map .assetDetails
  | .generalDetails => script.getGeneralDetails.map .generalDetails
  | .approval => script.getApproval.map fun found => .approval found.1 found.2
  | .newEntity => script.getNewEntity.map .newEntity
  | .newEntityType => (script.getNewEntityType params).map .newEntityType
  | .itemKey => script.getItemKey.map .itemKey
  | .entity => script.getEntity.map .entity
  | .assetQuantities scriptType =>
    (getAssetQuantities params script [] scriptType).map .assetQuantities

def lowByte (field : BitVec 32) : ℕ :=
  field.toNat % 256

def Message.read (params : ChainParams) : Message → Getter → Except McError Decoded
  | .permission type blockFrom blockTo timestamp, .permission =>
    .ok (.permission ⟨type, blockFrom.toNat, blockTo.toNat, timestamp.toNat⟩)
  | .blockSignature sig hashType key, .blockSignature sigSize keySize =>
    if sig.length ≤ sigSize ∧ key.length ≤ keySize then
      .ok (.blockSignature ⟨sig, lowByte hashType, key⟩)
    else .error .wrongScript
  | .assetGenesis quantity, .assetGenesis => .ok (.assetGenesis quantity)
  | .assetDetails name multiple details, .assetDetails =>
    .ok (.assetDetails ⟨name, multiple, details⟩)
  | .generalDetails details, .generalDetails => .ok (.generalDetails details)
  | .generalDetails details, .assetDetails => .ok (.assetDetails ⟨[], 1, details⟩)
  | .approval value timestamp, .approval =>
    .ok (.approval (lowByte value) timestamp.toNat)
  | .newEntity type update details, .newEntity =>
    .ok (.newEntity ⟨lowByte type, update, details⟩)
  | .newEntity type update details, .newEntityType =>
    if ¬ update ∧ (params.opDropDetailsScripts ∨ details = []) then
      .ok (.newEntityType (lowByte type))
    else .error .wrongScript
  | .newEntityType type, .newEntity => .ok (.newEntity ⟨lowByte type, false, []⟩)
  | .newEntityType type, .newEntityType => .ok (.newEntityType (lowByte type))
  | .itemKey key, .itemKey => .ok (.itemKey key)
  | .entity shortTxid, .entity => .ok (.entity shortTxid)
  | .assetQuantities amounts written, .assetQuantities scriptType =>
    if scriptType &&& written ≠ 0 then
      .ok (.assetQuantities (amounts.map fun row => { row with scriptType := written }))
    else .error .wrongScript
  | _, _ => .error .wrongScript

/-! ## Getters of other kinds -/

/-- What `GetAssetQuantities` reads of an element of one script type. -/
def readQuantities (script : McScript) (scriptType type : BitVec 32) (marker : Byte) :
    Except McError (BitVec 32 × Bytes) :=
  if scriptType &&& type = 0 then .error .wrongScript
  else
    (script.payload MC_DCT_SCRIPT_MULTICHAIN_IDENTIFIER marker
      (fun size => MC_DCT_SCRIPT_HEADER_SIZE ≤ size)).map fun data => (type, data)

def quantitiesOf (params : ChainParams) (found : BitVec 32 × Bytes) :
    Except McError (BitVec 32 × List AssetItem) :=
  let itemSize := assetRefSize params + MC_AST_ASSET_QUANTITY_SIZE
  let items := found.2.length / itemSize
  if found.2.length ≠ items * itemSize then .error .wrongScript
  else .ok (found.1, assetItems params items found.2)

theorem quantitiesElement_eq (params : ChainParams) (script : McScript) (identifier : Bytes)
    (marker : Byte) (data : Bytes) (scriptType : BitVec 32) :
    quantitiesElement params (script.addTagged identifier marker data) scriptType =
      match readQuantities (script.addTagged identifier marker data) scriptType
          MC_SCR_ASSET_SCRIPT_TYPE_TRANSFER MC_DCT_SCRIPT_MULTICHAIN_ASSET_QUANTITY_PREFIX with
      | .ok found => quantitiesOf params found
      | .error _ =>
        match readQuantities (script.addTagged identifier marker data) scriptType
            MC_SCR_ASSET_SCRIPT_TYPE_FOLLOWON MC_DCT_SCRIPT_MULTICHAIN_ASSET_FOLLOWON_PREFIX with
        | .ok found => quantitiesOf params found
        | .error _ => .error .wrongScript := by
  rw [quantitiesElement]
  dsimp only
  rw [← readQuantities, ← readQuantities]
  cases readQuantities (script.addTagged identifier marker data) scriptType
      MC_SCR_ASSET_SCRIPT_TYPE_TRANSFER MC_DCT_SCRIPT_MULTICHAIN_ASSET_QUANTITY_PREFIX with
  | ok found => rfl
  | error err =>
    cases readQuantities (script.addTagged identifier marker data) scriptType
        MC_SCR_ASSET_SCRIPT_TYPE_FOLLOWON MC_DCT_SCRIPT_MULTICHAIN_ASSET_FOLLOWON_PREFIX with
    | ok found => rfl
    | error err => rfl

/-- A getter without what the caller gives it. -/
inductive Getter.Kind where
  | permission
  | blockSignature
  | assetGenesis
  | assetDetails
  | generalDetails
  | approval
  | newEntity
  | newEntityType
  | itemKey
  | entity
  | assetQuantities
deriving DecidableEq

def Getter.kind : Getter → Getter.Kind
  | .permission => .permission
  | .blockSignature _ _ => .blockSignature
  | .assetGenesis => .assetGenesis
  | .assetDetails => .assetDetails
  | .generalDetails => .generalDetails
  | .approval => .approval
  | .newEntity => .newEntity
  | .newEntityType => .newEntityType
  | .itemKey => .itemKey
  | .entity => .entity
  | .assetQuantities _ => .assetQuantities

def Getter.Kind.tags : Getter.Kind → List (Bytes × Byte)
  | .permission => [(MC_DCT_SCRIPT_MULTICHAIN_IDENTIFIER,
      MC_DCT_SCRIPT_MULTICHAIN_PERMISSIONS_PREFIX)]
  | .blockSignature => [(MC_DCT_SCRIPT_FREE_DATA_IDENTIFIER,
      MC_DCT_SCRIPT_MULTICHAIN_BLOCK_SIGNATURE_PREFIX)]
  | .assetGenesis => [(MC_DCT_SCRIPT_MULTICHAIN_IDENTIFIER,
      MC_DCT_SCRIPT_MULTICHAIN_ASSET_GENESIS_PREFIX)]
  | .assetDetails => [(MC_DCT_SCRIPT_FREE_DATA_IDENTIFIER,
        MC_DCT_SCRIPT_MULTICHAIN_ASSET_DETAILS_PREFIX),
      (MC_DCT_SCRIPT_FREE_DATA_IDENTIFIER, MC_DCT_SCRIPT_MULTICHAIN_GENERAL_DETAILS_PREFIX)]
  | .generalDetails => [(MC_DCT_SCRIPT_FREE_DATA_IDENTIFIER,
      MC_DCT_SCRIPT_MULTICHAIN_GENERAL_DETAILS_PREFIX)]
  | .approval => [(MC_DCT_SCRIPT_MULTICHAIN_IDENTIFIER, MC_DCT_SCRIPT_MULTICHAIN_APPROVE_PREFIX)]
  | .newEntity => [(MC_DCT_SCRIPT_MULTICHAIN_IDENTIFIER,
        MC_DCT_SCRIPT_MULTICHAIN_NEW_ENTITY_PREFIX),
      (MC_DCT_SCRIPT_MULTICHAIN_IDENTIFIER, MC_DCT_SCRIPT_MULTICHAIN_UPDATE_ENTITY_PREFIX)]
  | .newEntityType => [(MC_DCT_SCRIPT_MULTICHAIN_IDENTIFIER,
      MC_DCT_SCRIPT_MULTICHAIN_NEW_ENTITY_PREFIX)]
  | .itemKey => [(MC_DCT_SCRIPT_MULTICHAIN_IDENTIFIER, MC_DCT_SCRIPT_MULTICHAIN_KEY_PREFIX)]
  | .entity => [(MC_DCT_SCRIPT_MULTICHAIN_IDENTIFIER, MC_DCT_SCRIPT_MULTICHAIN_ENTITY_PREFIX)]
  | .assetQuantities => [
      (MC_DCT_SCRIPT_MULTICHAIN_IDENTIFIER, MC_DCT_SCRIPT_MULTICHAIN_ASSET_QUANTITY_PREFIX),
      (MC_DCT_SCRIPT_MULTICHAIN_IDENTIFIER, MC_DCT_SCRIPT_MULTICHAIN_ASSET_FOLLOWON_PREFIX)]

section Foreign

variable {params : ChainParams} {script : McScript} {identifier : Bytes} {marker : Byte}

/-- An element that a getter does not look for is a wrong script to it. -/
theorem run_foreign (hlength : identifier.length = 3) {getter : Getter}
    (htag : (identifier, marker) ∉ getter.kind.tags) (data : Bytes) :
    getter.run params (script.addTagged identifier marker data) = .error .wrongScript := by
  have hforeign {other : Bytes} {mark : Byte} (size : ℕ → Bool)
      (hmem : (other, mark) ∈ getter.kind.tags) :
      (script.addTagged identifier marker data).payload other mark size = .error .wrongScript :=
    payload_foreign hlength (fun heq => htag (by rwa [heq])) data
  have hfirst {tag : Bytes × Byte} {tags : List (Bytes × Byte)}
      (htags : getter.kind.tags = tag :: tags) : tag ∈ getter.kind.tags := by
    rw [htags]
    exact .head _
  have hsecond {tag other : Bytes × Byte} (htags : getter.kind.tags = [tag, other]) :
      other ∈ getter.kind.tags := by
    rw [htags]
    exact .tail _ (List.mem_singleton.mpr rfl)
  cases getter with
  | permission =>
    rw [Getter.run, getPermission, hforeign _ (hfirst rfl)]
    rfl
  | blockSignature sigSize keySize =>
    rw [Getter.run, getBlockSignature, hforeign _ (hfirst rfl)]
    rfl
  | assetGenesis =>
    rw [Getter.run, getAssetGenesis, hforeign _ (hfirst rfl)]
    rfl
  | assetDetails =>
    rw [Getter.run, getAssetDetails, getGeneralDetails, hforeign _ (hsecond rfl),
      assetDetailsData, hforeign _ (hfirst rfl)]
    rfl
  | generalDetails =>
    rw [Getter.run, getGeneralDetails, hforeign _ (hfirst rfl)]
    rfl
  | approval =>
    rw [Getter.run, getApproval, hforeign _ (hfirst rfl)]
    rfl
  | newEntity =>
    rw [Getter.run, getNewEntity, readNewEntity]
    dsimp only
    rw [hforeign _ (hfirst rfl), hforeign _ (hsecond rfl)]
    rfl
  | newEntityType =>
    rw [Getter.run, getNewEntityType, hforeign _ (hfirst rfl)]
    rfl
  | itemKey =>
    rw [Getter.run, getItemKey, hforeign _ (hfirst rfl)]
    rfl
  | entity =>
    rw [Getter.run, getEntity, hforeign _ (hfirst rfl)]
    rfl
  | assetQuantities scriptType =>
    have hread {mark : Byte} (type : BitVec 32)
        (hmem : (MC_DCT_SCRIPT_MULTICHAIN_IDENTIFIER, mark) ∈ Getter.Kind.tags .assetQuantities) :
        readQuantities (script.addTagged identifier marker data) scriptType type mark
          = .error .wrongScript := by
      rw [readQuantities, hforeign _ hmem]
      split
      · rfl
      · rfl
    rw [Getter.run, getAssetQuantities, quantitiesElement_eq, hread _ (hfirst rfl),
      hread _ (hsecond rfl)]
    rfl

end Foreign

/-! ## Getters of the same kind -/

variable {amounts : Amounts}

section Own

variable {params : ChainParams} {script : McScript}

theorem getPermission_own (type blockFrom blockTo timestamp : BitVec 32) :
    (script.addTagged MC_DCT_SCRIPT_MULTICHAIN_IDENTIFIER
      MC_DCT_SCRIPT_MULTICHAIN_PERMISSIONS_PREFIX (putLE type.toNat 4 ++ (putLE blockFrom.toNat 4
        ++ (putLE blockTo.toNat 4 ++ putLE timestamp.toNat 4)))).getPermission
      = .ok ⟨type, blockFrom.toNat, blockTo.toNat, timestamp.toNat⟩ := by
  rw [getPermission, payload_own rfl, if_pos (by simp [MC_DCT_SCRIPT_HEADER_SIZE])]
  dsimp only [bind, Except.bind]
  rw [getLE_putLE type.isLt, drop_putLE, drop_putLE_add _ 4 4, drop_putLE, drop_putLE_add _ 4 8,
    drop_putLE_add _ 4 4, drop_putLE, getLE_putLE blockFrom.isLt, getLE_putLE blockTo.isLt,
    getLE_putLE_all timestamp.isLt, BitVec.ofNat_toNat]
  rfl

theorem getAssetGenesis_own {quantity : BitVec 64} (hsign : quantity.msb = false) :
    (script.addTagged MC_DCT_SCRIPT_MULTICHAIN_IDENTIFIER
      MC_DCT_SCRIPT_MULTICHAIN_ASSET_GENESIS_PREFIX (putLE quantity.toNat 8)).getAssetGenesis
      = .ok quantity := by
  rw [getAssetGenesis, payload_own rfl, if_pos (by simp [MC_DCT_SCRIPT_HEADER_SIZE])]
  dsimp only [bind, Except.bind]
  rw [getLE_putLE_all quantity.isLt, BitVec.ofNat_toNat, BitVec.setWidth_eq, hsign]
  rfl

theorem getApproval_own (value timestamp : BitVec 32) :
    (script.addTagged MC_DCT_SCRIPT_MULTICHAIN_IDENTIFIER MC_DCT_SCRIPT_MULTICHAIN_APPROVE_PREFIX
      (putLE value.toNat 1 ++ putLE timestamp.toNat 4)).getApproval
      = .ok (lowByte value, timestamp.toNat) := by
  rw [getApproval, payload_own rfl, if_pos (by simp [MC_DCT_SCRIPT_HEADER_SIZE])]
  dsimp only [bind, Except.bind]
  rw [drop_putLE, getLE_putLE_all timestamp.isLt]
  rfl

theorem getEntity_own (shortTxid : BitVec 128) :
    (script.addTagged MC_DCT_SCRIPT_MULTICHAIN_IDENTIFIER MC_DCT_SCRIPT_MULTICHAIN_ENTITY_PREFIX
      (putLE shortTxid.toNat MC_AST_SHORT_TXID_SIZE)).getEntity = .ok shortTxid := by
  rw [getEntity, payload_own rfl, if_pos (by simp)]
  dsimp only [bind, Except.bind]
  rw [getLE_putLE_all shortTxid.isLt, BitVec.ofNat_toNat]
  rfl

theorem getItemKey_own {key : Bytes} (hlength : key.length ≤ MC_ENT_MAX_ITEM_KEY_SIZE) :
    (script.addTagged MC_DCT_SCRIPT_MULTICHAIN_IDENTIFIER
      MC_DCT_SCRIPT_MULTICHAIN_KEY_PREFIX key).getItemKey = .ok key := by
  rw [getItemKey, payload_own rfl]
  simpa using hlength

theorem getGeneralDetails_own {details : Bytes}
    (hlength : details.length ≤ MC_ENT_MAX_SCRIPT_SIZE) :
    (script.addTagged MC_DCT_SCRIPT_FREE_DATA_IDENTIFIER
      MC_DCT_SCRIPT_MULTICHAIN_GENERAL_DETAILS_PREFIX details).getGeneralDetails = .ok details := by
  rw [getGeneralDetails, payload_own rfl]
  simpa using hlength

theorem getAssetDetails_own {name details : Bytes} {multiple : BitVec 32}
    (hnul : 0 ∉ name) (hname : name.length ≤ MC_ENT_MAX_NAME_SIZE)
    (hlength : details.length ≤ MC_ENT_MAX_SCRIPT_SIZE) :
    (script.addTagged MC_DCT_SCRIPT_FREE_DATA_IDENTIFIER
      MC_DCT_SCRIPT_MULTICHAIN_ASSET_DETAILS_PREFIX
      (putLE multiple.toNat 4 ++ (name ++ 0 :: details))).getAssetDetails
      = .ok ⟨name, multiple, details⟩ := by
  have hgeneral : (script.addTagged MC_DCT_SCRIPT_FREE_DATA_IDENTIFIER
      MC_DCT_SCRIPT_MULTICHAIN_ASSET_DETAILS_PREFIX
      (putLE multiple.toNat 4 ++ (name ++ 0 :: details))).getGeneralDetails
      = .error .wrongScript := payload_foreign rfl (by decide) _
  have htext : (name ++ 0 :: details).takeWhile (fun byte => byte ≠ 0) = name := by
    rw [List.takeWhile_append_of_pos]
    · simp
    intro byte hmem
    exact decide_eq_true fun heq => hnul (heq ▸ hmem)
  rw [getAssetDetails, hgeneral]
  rw [assetDetailsData, payload_own rfl, if_pos]
  · have hbehind : (putLE multiple.toNat 4 ++ (name ++ 0 :: details)).drop (4 + name.length + 1)
        = details := by
      rw [Nat.add_assoc, drop_putLE_add, ← List.drop_drop, List.drop_left]
      rfl
    dsimp only [bind, Except.bind]
    rw [drop_putLE, htext, hbehind, getLE_putLE multiple.isLt]
    simp
    omega
  simp [MC_DCT_SCRIPT_HEADER_SIZE]
  omega

theorem readNewEntity_own {update : Bool} {details : Bytes} (type : BitVec 32)
    (hlength : details.length ≤ MC_ENT_MAX_SCRIPT_SIZE) :
    (script.addTagged MC_DCT_SCRIPT_MULTICHAIN_IDENTIFIER
      (if update then MC_DCT_SCRIPT_MULTICHAIN_UPDATE_ENTITY_PREFIX
        else MC_DCT_SCRIPT_MULTICHAIN_NEW_ENTITY_PREFIX)
      (putLE type.toNat 1 ++ details)).readNewEntity = .ok ⟨lowByte type, update, details⟩ := by
  have hsize : decide (MC_DCT_SCRIPT_HEADER_SIZE + 1 ≤ MC_DCT_SCRIPT_HEADER_SIZE
        + (putLE type.toNat 1 ++ details).length
      ∧ MC_DCT_SCRIPT_HEADER_SIZE + (putLE type.toNat 1 ++ details).length
        ≤ MC_DCT_SCRIPT_HEADER_SIZE + 1 + MC_ENT_MAX_SCRIPT_SIZE) = true := by
    rw [decide_eq_true_iff, List.length_append, length_putLE]
    omega
  rw [readNewEntity]
  dsimp only
  cases update with
  | true =>
    rw [if_pos rfl, payload_foreign rfl (by decide), payload_own rfl, if_pos hsize]
    rfl
  | false =>
    rw [if_neg Bool.false_ne_true, payload_own rfl, if_pos hsize]
    rfl

theorem getNewEntity_own {update : Bool} {details : Bytes} (type : BitVec 32)
    (hlength : details.length ≤ MC_ENT_MAX_SCRIPT_SIZE) (hverify : Details.verify details = true) :
    (script.addTagged MC_DCT_SCRIPT_MULTICHAIN_IDENTIFIER
      (if update then MC_DCT_SCRIPT_MULTICHAIN_UPDATE_ENTITY_PREFIX
        else MC_DCT_SCRIPT_MULTICHAIN_NEW_ENTITY_PREFIX)
      (putLE type.toNat 1 ++ details)).getNewEntity = .ok ⟨lowByte type, update, details⟩ := by
  rw [getNewEntity, readNewEntity_own type hlength]
  dsimp only [bind, Except.bind]
  rw [if_pos hverify]

theorem getNewEntityType_own (type : BitVec 32) (details : Bytes) :
    (script.addTagged MC_DCT_SCRIPT_MULTICHAIN_IDENTIFIER MC_DCT_SCRIPT_MULTICHAIN_NEW_ENTITY_PREFIX
      (putLE type.toNat 1 ++ details)).getNewEntityType params =
      if params.opDropDetailsScripts ∨ details = [] then .ok (lowByte type)
      else .error .wrongScript := by
  have hlength : (putLE type.toNat 1 ++ details).length = 1 + details.length := by
    rw [List.length_append, length_putLE]
  rw [getNewEntityType, payload_own rfl, hlength]
  by_cases hread : params.opDropDetailsScripts ∨ details = []
  · rw [if_pos hread, if_pos]
    · rfl
    split
    · rw [decide_eq_true_iff]
      omega
    next hdrop =>
      have hnil := hread.resolve_left hdrop
      rw [decide_eq_true_iff, hnil, List.length_nil]
  rw [if_neg hread, if_neg]
  · rfl
  have hdrop := fun hdrop => hread (.inl hdrop)
  have hne : details.length ≠ 0 := fun hzero =>
    hread (.inr (List.eq_nil_of_length_eq_zero hzero))
  rw [if_neg hdrop, decide_eq_true_iff]
  omega

theorem getBlockSignature_own {sig key : Bytes} (hashType : BitVec 32) {sigSize keySize : ℕ}
    (hsig : sig.length ≤ 0xff) (hkey : key.length ≤ 0xff) :
    (script.addTagged MC_DCT_SCRIPT_FREE_DATA_IDENTIFIER
      MC_DCT_SCRIPT_MULTICHAIN_BLOCK_SIGNATURE_PREFIX
      (putLE sig.length 1 ++ (sig ++ (putLE hashType.toNat 1 ++ (putLE key.length 1 ++ key))))
      ).getBlockSignature sigSize keySize =
      if sig.length ≤ sigSize ∧ key.length ≤ keySize then .ok ⟨sig, lowByte hashType, key⟩
      else .error .wrongScript := by
  have hlength : (sig ++ (putLE hashType.toNat 1 ++ (putLE key.length 1 ++ key))).length
      = sig.length + 2 + key.length := by
    simp only [List.length_append, length_putLE]
    omega
  rw [getBlockSignature, payload_own rfl, if_pos]
  · dsimp only [bind, Except.bind]
    rw [getLE_putLE (by omega), drop_putLE, List.take_left, List.drop_left, drop_putLE,
      getLE_putLE (by omega), drop_putLE_add _ 1 1, drop_putLE,
      List.take_length]
    by_cases hsigSize : sig.length ≤ sigSize
    · by_cases hkeySize : key.length ≤ keySize
      · rw [if_neg (by omega), if_neg (by omega), if_pos ⟨hsigSize, hkeySize⟩]
        rfl
      · rw [if_neg (by omega), if_pos (by omega), if_neg (by omega)]
    · rw [if_pos (by omega), if_neg (by omega)]
  rw [decide_eq_true_iff, List.length_append, length_putLE]
  omega

/-! ### Asset quantities -/

theorem length_writtenRef (ref : FullRef) : (writtenRef params ref).length = assetRefSize params :=
  length_putLE _ _

/-- The reference of an asset comes back from its bytes. -/
theorem makeFullRef_writtenRef {ref : FullRef} (href : InTransaction params ref) (rest : Bytes) :
    makeFullRef params (BitVec.ofNat 256 (getLE (writtenRef params ref ++ rest)
      (assetRefSize params))) = ref := by
  obtain ⟨bits, hbits, rfl⟩ := href
  have hread (value : BitVec 256) (hvalue : value = bits) :
      BitVec.ofNat 256 (getLE (putLE value.toNat (assetRefSize params) ++ rest)
        (assetRefSize params)) = bits := by
    rw [hvalue, getLE_putLE hbits, BitVec.ofNat_toNat, BitVec.setWidth_eq]
  rw [writtenRef]
  cases hshort : params.shortTxIDInTx with
  | true =>
    have hsize : assetRefSize params = 16 := by rw [assetRefSize, hshort, if_pos rfl]
    have hshift : (bits <<< 128) >>> 128 = bits := by
      apply BitVec.eq_of_toNat_eq
      rw [hsize] at hbits
      rw [BitVec.toNat_ushiftRight, BitVec.toNat_shiftLeft, Nat.shiftLeft_eq,
        Nat.mod_eq_of_lt (by omega), Nat.shiftRight_eq_div_pow]
      exact Nat.mul_div_cancel _ (by decide)
    have href : (makeFullRef params bits).ref = bits <<< 128 := by
      rw [makeFullRef, hshort, if_pos rfl]
    rw [href, if_pos rfl, hread _ hshift]
  | false =>
    have href : (makeFullRef params bits).ref = bits := by
      rw [makeFullRef, hshort, if_neg Bool.false_ne_true]
    rw [href, if_neg Bool.false_ne_true, hread _ (BitVec.ushiftRight_zero bits)]

theorem length_writtenAmounts (amounts : Amounts) : (writtenAmounts params amounts).length
      = amounts.length * (assetRefSize params + MC_AST_ASSET_QUANTITY_SIZE) := by
  induction amounts with
  | nil => rw [List.length_nil, Nat.zero_mul]; rfl
  | cons row rest ih =>
    rw [writtenAmounts, List.flatMap_cons, List.length_append, List.length_append,
      length_writtenRef, length_putLE, List.length_cons, Nat.succ_mul, ← ih, writtenAmounts]
    omega

theorem assetItems_written (hrefs : ∀ row ∈ amounts, InTransaction params row.ref) :
    assetItems params amounts.length (writtenAmounts params amounts)
      = amounts.map fun row => ⟨row.ref, row.quantity⟩ := by
  induction amounts with
  | nil => rfl
  | cons row rest ih =>
    have hrest := ih fun other hmem => hrefs other (.tail _ hmem)
    have hwritten : writtenAmounts params (row :: rest) = writtenRef params row.ref
        ++ (putLE row.quantity.toNat MC_AST_ASSET_QUANTITY_SIZE ++ writtenAmounts params rest) := by
      rw [writtenAmounts, List.flatMap_cons, List.append_assoc]
      rfl
    have hquantity : (writtenRef params row.ref ++ (putLE row.quantity.toNat
          MC_AST_ASSET_QUANTITY_SIZE ++ writtenAmounts params rest)).drop (assetRefSize params)
        = putLE row.quantity.toNat MC_AST_ASSET_QUANTITY_SIZE ++ writtenAmounts params rest :=
      List.drop_left' (length_writtenRef row.ref)
    rw [List.length_cons, assetItems, hwritten, List.map_cons,
      makeFullRef_writtenRef (hrefs row (.head _)), ← List.drop_drop, hquantity,
      getLE_putLE row.quantity.isLt, drop_putLE, hrest, BitVec.ofNat_toNat, BitVec.setWidth_eq]

/-- Items with new references are added as rows of their own. -/
theorem foldlM_addItem {found : BitVec 32} {rows : Amounts}
    (hquantities : ∀ row ∈ rows, row.quantity.msb = false) (amounts : Amounts)
    (hdistinct : ((amounts ++ rows).map AmountRow.ref).Nodup) :
    (rows.map fun row => (⟨row.ref, row.quantity⟩ : AssetItem)).foldlM addItem (amounts, found)
      = .ok (amounts ++ rows.map fun row => { row with scriptType := found }, found) := by
  induction rows generalizing amounts with
  | nil =>
    rw [List.map_nil, List.map_nil, List.append_nil]
    rfl
  | cons row rest ih =>
    have hseek : amounts.seek row.ref = none := by
      rw [Amounts.seek, List.findIdx?_eq_none_iff]
      intro other hmem
      rw [List.map_append, List.nodup_append] at hdistinct
      have hne := hdistinct.2.2 other.ref (List.mem_map_of_mem hmem) row.ref (.head _)
      exact decide_eq_false hne
    have hadd : addItem (amounts, found) ⟨row.ref, row.quantity⟩
        = .ok (amounts ++ [{ row with scriptType := found }], found) := by
      rw [addItem]
      rw [hquantities row (.head _), hseek, if_neg Bool.false_ne_true]
    have hrest := ih (fun other hmem => hquantities other (.tail _ hmem))
      (amounts ++ [{ row with scriptType := found }])
      (by simpa using hdistinct)
    rw [List.map_cons, List.foldlM_cons, hadd]
    dsimp only [bind, Except.bind]
    rw [hrest, List.append_assoc]
    rfl

theorem quantitiesOf_written (hsendable : amounts.Sendable params) (written : BitVec 32) :
    quantitiesOf params (written, writtenAmounts params amounts)
      = .ok (written, amounts.map fun row => ⟨row.ref, row.quantity⟩) := by
  have hpos : 0 < assetRefSize params + MC_AST_ASSET_QUANTITY_SIZE := Nat.succ_pos _
  have hitems : (writtenAmounts params amounts).length
      / (assetRefSize params + MC_AST_ASSET_QUANTITY_SIZE) = amounts.length := by
    rw [length_writtenAmounts, Nat.mul_div_cancel _ hpos]
  rw [quantitiesOf]
  rw [hitems, length_writtenAmounts, if_neg (fun hne => hne rfl), assetItems_written hsendable.refs]

end Own

/-! ## Every setter with every getter -/

section Every

variable {params : ChainParams} {script script' : McScript}

theorem readQuantities_own (scriptType type : BitVec 32) (marker : Byte) (data : Bytes) :
    readQuantities (script.addTagged MC_DCT_SCRIPT_MULTICHAIN_IDENTIFIER marker data) scriptType
      type marker = if scriptType &&& type = 0 then .error .wrongScript else .ok (type, data) := by
  rw [readQuantities, payload_own rfl, if_pos (decide_eq_true (Nat.le_add_right _ _))]
  rfl

theorem readQuantities_foreign (scriptType type : BitVec 32) {marker mark : Byte}
    (hother : marker ≠ mark) (data : Bytes) :
    readQuantities (script.addTagged MC_DCT_SCRIPT_MULTICHAIN_IDENTIFIER marker data) scriptType
      type mark = .error .wrongScript := by
  rw [readQuantities, payload_foreign rfl (fun heq => hother (congrArg Prod.snd heq))]
  split
  · rfl
  rfl

theorem quantitiesElement_own {written : BitVec 32}
    (hset : setAssetQuantities params script amounts written = .ok script')
    (scriptType : BitVec 32) : quantitiesElement params script' scriptType =
      if scriptType &&& written = 0 then .error .wrongScript
      else quantitiesOf params (written, writtenAmounts params amounts) := by
  rw [setAssetQuantities] at hset
  split at hset
  next htransfer =>
    cases hset
    rw [quantitiesElement_eq, readQuantities_own, readQuantities_foreign _ _ (by decide), htransfer]
    by_cases hmask : scriptType &&& MC_SCR_ASSET_SCRIPT_TYPE_TRANSFER = 0
    · rw [if_pos hmask, if_pos hmask]
    · rw [if_neg hmask, if_neg hmask]
  · split at hset
    next hfollowOn =>
      cases hset
      rw [quantitiesElement_eq, readQuantities_own, readQuantities_foreign _ _ (by decide),
        hfollowOn]
      by_cases hmask : scriptType &&& MC_SCR_ASSET_SCRIPT_TYPE_FOLLOWON = 0
      · rw [if_pos hmask, if_pos hmask]
      · rw [if_neg hmask, if_neg hmask]
    · cases hset

theorem getAssetQuantities_own {written : BitVec 32} (hsendable : amounts.Sendable params)
    (hset : setAssetQuantities params script amounts written = .ok script')
    (scriptType : BitVec 32) : getAssetQuantities params script' [] scriptType =
      if scriptType &&& written ≠ 0 then
        .ok (amounts.map fun row => { row with scriptType := written })
      else .error .wrongScript := by
  rw [getAssetQuantities, quantitiesElement_own hset]
  by_cases hmask : scriptType &&& written = 0
  · rw [if_pos hmask, if_neg (fun hne => hne hmask)]
    rfl
  rw [if_neg hmask, if_pos hmask, quantitiesOf_written hsendable]
  dsimp only [bind, Except.bind]
  rw [foldlM_addItem hsendable.quantities [] (by simpa using hsendable.distinct)]
  rfl

/-- Every getter reads the element that a setter wrote as the message says: as the
same fields when the element is of its kind, and otherwise as a wrong script. -/
theorem elements_read (message : Message) (hvalid : message.Valid params)
    (hset : message.set params script = .ok script') (getter : Getter) :
    getter.run params script' = message.read params getter := by
  cases message with
  | permission type blockFrom blockTo timestamp =>
    cases hset
    cases getter with
    | permission =>
      rw [Getter.run, getPermission_own]
      rfl
    | _ => exact run_foreign rfl (by rw [Getter.kind]; decide) _
  | blockSignature sig hashType key =>
    rw [Message.set, setBlockSignature] at hset
    split at hset
    · cases hset
    next hsize =>
      cases hset
      cases getter with
      | blockSignature sigSize keySize =>
        rw [Getter.run, getBlockSignature_own hashType (by omega) (by omega), Message.read]
        split
        · rfl
        · rfl
      | _ => exact run_foreign rfl (by rw [Getter.kind]; decide) _
  | assetGenesis quantity =>
    rw [Message.set, setAssetGenesis] at hset
    split at hset
    · cases hset
    next hsign =>
      cases hset
      cases getter with
      | assetGenesis =>
        rw [Getter.run, getAssetGenesis_own (Bool.eq_false_of_not_eq_true hsign)]
        rfl
      | _ => exact run_foreign rfl (by rw [Getter.kind]; decide) _
  | assetDetails name multiple details =>
    rw [Message.set, setAssetDetails] at hset
    split at hset
    · cases hset
    next hsize =>
      have hname : name.takeWhile (fun byte => byte ≠ 0) = name := by
        have hall : ∀ byte ∈ name, decide (byte ≠ 0) = true := fun byte hmem =>
          decide_eq_true fun heq => hvalid.1 (heq ▸ hmem)
        have htake : (name ++ []).takeWhile (fun byte => byte ≠ 0) = name ++ [].takeWhile _ :=
          List.takeWhile_append_of_pos hall
        simpa using htake
      rw [hname] at hset
      cases hset
      cases getter with
      | assetDetails =>
        rw [Getter.run, getAssetDetails_own hvalid.1 hvalid.2 (Nat.not_lt.mp hsize)]
        rfl
      | _ => exact run_foreign rfl (by rw [Getter.kind]; decide) _
  | generalDetails details =>
    rw [Message.set, setGeneralDetails] at hset
    split at hset
    · cases hset
    next hsize =>
      cases hset
      have hread := @getGeneralDetails_own script details (Nat.not_lt.mp hsize)
      cases getter with
      | generalDetails =>
        rw [Getter.run, hread]
        rfl
      | assetDetails =>
        rw [Getter.run, getAssetDetails, hread]
        rfl
      | _ => exact run_foreign rfl (by rw [Getter.kind]; decide) _
  | approval value timestamp =>
    cases hset
    cases getter with
    | approval =>
      rw [Getter.run, getApproval_own]
      rfl
    | _ => exact run_foreign rfl (by rw [Getter.kind]; decide) _
  | newEntity type update details =>
    rw [Message.set, setNewEntity] at hset
    split at hset
    · cases hset
    next hsize =>
      split at hset
      · cases hset
      next hverify =>
        cases hset
        have hread := @getNewEntity_own script update details type (Nat.not_lt.mp hsize)
          (not_not.mp hverify)
        cases getter with
        | newEntity =>
          rw [Getter.run, hread]
          rfl
        | newEntityType =>
          cases update with
          | true => exact run_foreign rfl (by rw [Getter.kind]; decide) _
          | false =>
            rw [Getter.run, if_neg Bool.false_ne_true, getNewEntityType_own, Message.read]
            simp only [Bool.false_eq_true, not_false_eq_true, true_and]
            split
            · rfl
            · rfl
        | _ =>
          cases update with
          | true => exact run_foreign rfl (by rw [Getter.kind]; decide) _
          | false => exact run_foreign rfl (by rw [Getter.kind]; decide) _
  | newEntityType type =>
    cases hset
    have hown := @getNewEntity_own script false [] type (Nat.zero_le _) rfl
    have htype := @getNewEntityType_own params script type []
    rw [if_neg Bool.false_ne_true, List.append_nil] at hown
    rw [List.append_nil, if_pos (.inr rfl)] at htype
    cases getter with
    | newEntity =>
      rw [Getter.run, hown]
      rfl
    | newEntityType =>
      rw [Getter.run, htype]
      rfl
    | _ => exact run_foreign rfl (by rw [Getter.kind]; decide) _
  | itemKey key =>
    rw [Message.set, setItemKey] at hset
    split at hset
    · cases hset
    next hsize =>
      cases hset
      cases getter with
      | itemKey =>
        rw [Getter.run, getItemKey_own (Nat.not_lt.mp hsize)]
        rfl
      | _ => exact run_foreign rfl (by rw [Getter.kind]; decide) _
  | entity shortTxid =>
    cases hset
    cases getter with
    | entity =>
      rw [Getter.run, getEntity_own]
      rfl
    | _ => exact run_foreign rfl (by rw [Getter.kind]; decide) _
  | assetQuantities amounts written =>
    have hread (scriptType : BitVec 32) := getAssetQuantities_own hvalid hset scriptType
    have hforeign (other : Getter) (hkind : other.kind ≠ .assetQuantities) :
        other.run params script' = .error .wrongScript := by
      have hquantity : ∀ kind : Getter.Kind, kind ≠ .assetQuantities →
          (MC_DCT_SCRIPT_MULTICHAIN_IDENTIFIER, MC_DCT_SCRIPT_MULTICHAIN_ASSET_QUANTITY_PREFIX)
            ∉ kind.tags := by
        intro kind
        cases kind
        all_goals decide
      have hfollowOn : ∀ kind : Getter.Kind, kind ≠ .assetQuantities →
          (MC_DCT_SCRIPT_MULTICHAIN_IDENTIFIER, MC_DCT_SCRIPT_MULTICHAIN_ASSET_FOLLOWON_PREFIX)
            ∉ kind.tags := by
        intro kind
        cases kind
        all_goals decide
      rw [Message.set, setAssetQuantities] at hset
      split at hset
      · cases hset
        exact run_foreign rfl (hquantity _ hkind) _
      split at hset
      · cases hset
        exact run_foreign rfl (hfollowOn _ hkind) _
      · cases hset
    cases getter with
    | assetQuantities scriptType =>
      rw [Getter.run, hread, Message.read]
      split
      · rfl
      · rfl
    | _ => exact hforeign _ (by rw [Getter.kind]; decide)

end Every

def sevenOfAsset : Amounts :=
  [⟨makeFullRef .defaults 5, 7, MC_SCR_ASSET_SCRIPT_TYPE_TRANSFER⟩]

theorem sevenOfAsset_sendable : sevenOfAsset.Sendable .defaults where
  refs := by
    intro row hmem
    rw [List.mem_singleton.mp hmem]
    exact ⟨5, by decide, rfl⟩
  distinct := List.nodup_singleton _
  quantities := by decide

theorem sevenOfAsset_read : Getter.run .defaults
    (McScript.cleared.addTagged MC_DCT_SCRIPT_MULTICHAIN_IDENTIFIER
      MC_DCT_SCRIPT_MULTICHAIN_ASSET_QUANTITY_PREFIX (writtenAmounts .defaults sevenOfAsset))
    (.assetQuantities MC_SCR_ASSET_SCRIPT_TYPE_TRANSFER) = .ok (.assetQuantities sevenOfAsset) :=
  @elements_read .defaults McScript.cleared _
    (.assetQuantities sevenOfAsset MC_SCR_ASSET_SCRIPT_TYPE_TRANSFER) sevenOfAsset_sendable rfl
    (.assetQuantities MC_SCR_ASSET_SCRIPT_TYPE_TRANSFER)

/-- An approval is cut to its low byte, and a negative quantity is written but not
read. -/
theorem elements_not_read :
    (McScript.cleared.setApproval 256 1).bind McScript.getApproval = .ok (0, 1)
      ∧ (setAssetQuantities .defaults McScript.cleared
          [⟨makeFullRef .defaults 5, -1, MC_SCR_ASSET_SCRIPT_TYPE_TRANSFER⟩]
          MC_SCR_ASSET_SCRIPT_TYPE_TRANSFER).bind
        (fun script => getAssetQuantities .defaults script [] MC_SCR_ASSET_SCRIPT_TYPE_TRANSFER)
        = .error .notAllowed := by
  decide +kernel

end Amberchain.Transaction
