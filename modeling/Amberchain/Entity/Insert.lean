import Amberchain.Entity.Store

/-!
# Inserting entities

A new entity gets one mempool row for each of its keys, all of which must be
free.  A follow-on gets one row, behind the last object of its asset's chain.
-/

namespace Amberchain.Entity

/-- What the three insert functions are given about a transaction. -/
structure Issue where
  txid : Hash256
  offset : ℤ
  script : Bytes
  specialScript : Bytes
  updateMempool : Bool

namespace AssetDB

variable (params : ChainParams) (assets : AssetDB)

/-- `m_Offset`: unconfirmed transactions count down from `-1`. -/
def rowOffset (offset : ℤ) : ℤ :=
  if offset < 0 then -(assets.memPool.length + 1) else offset

def keyRows (row : EntityRow) : List EntityRow :=
  let keys :=
    row.key :: (row.ref.map refKey).toList ++ ((row.name params).map nameKey).toList
      ++ [shortTxidKey (shortTxid row.key.key)]
  keys.map fun key => { row with key := key }

/-- The two passes over the keys of a new entity: all have to be free, then each
gets a row. -/
def insertKeys (row : EntityRow) (updateMempool : Bool) : AssetDB × Option McError :=
  let rows := keyRows params row
  if rows.any fun keyRow => (assets.getEntity keyRow.key).isSome then (assets, some .found)
  else if updateMempool then
    ({ assets with memPool := assets.memPool ++ rows }, none)
  else (assets, none)

def cString (bytes : Bytes) : Bytes :=
  bytes.takeWhile fun byte => byte ≠ 0

/-- `InsertEntity` stores a name that is not terminated once more, with its
NUL. -/
def entityNameParam (script : Bytes) : Bytes :=
  match Details.findSpecialParam script Details.MC_ENT_SPRM_NAME with
  | none => []
  | some name =>
    if name ≠ [] ∧ name.getLast? ≠ some 0 then
      Details.specialParam Details.MC_ENT_SPRM_NAME (cString name ++ [0])
    else []

def upgradeField (value : Bytes) : Except McError ℕ :=
  if value.length = 0 ∨ 4 < value.length then .error .errorInScript
  else .ok (getLE value value.length)

def upgradeScript (script : Bytes) : Except McError ℕ :=
  match Details.findSpecialParam script Details.MC_ENT_SPRM_UPGRADE_PROTOCOL_VERSION with
  | none => .error .errorInScript
  | some version => do
    let number ← upgradeField version
    if toInt32 number < 0 then .error .errorInScript
    else
      match Details.findSpecialParam script Details.MC_ENT_SPRM_UPGRADE_START_BLOCK with
      | none => .ok 0
      | some start => upgradeField start

def entityRow (issue : Issue) (entityType : ℕ) : EntityRow where
  key := txidKey issue.txid
  block := assets.block + 1
  offset := assets.rowOffset issue.offset
  quantity := 0
  entityType := entityType
  prevPos := -1
  firstPos := -1
  lastPos := 0
  chainPos := -1
  script := issue.specialScript ++ entityNameParam issue.script ++ issue.script

/-- `InsertEntity` up to the approval of an upgrade, with the start block of the
upgrade. -/
def insertEntity (issue : Issue) (entityType : ℕ) : AssetDB × Except McError ℕ :=
  let checked : Except McError ℕ :=
    if params.upgrades ∧ entityType = MC_ENT_TYPE_UPGRADE then upgradeScript issue.script
    else .ok 0
  match checked with
  | .error err => (assets, .error err)
  | .ok startBlock =>
    match assets.insertKeys params (assets.entityRow issue entityType) issue.updateMempool with
    | (assets, some err) => (assets, .error err)
    | (assets, none) => (assets, .ok startBlock)

/-- The parameters that `InsertAsset` puts before the details: the multiple and
the name, unless the details hold them. -/
def assetParams (script name : Bytes) (multiple : BitVec 32) : Bytes :=
  let hasMultiple : Bool :=
    params.opDropDetailsScripts
      ∧ (Details.findSpecialParam script Details.MC_ENT_SPRM_ASSET_MULTIPLE).isSome
  let hasName : Bool :=
    match Details.findSpecialParam script Details.MC_ENT_SPRM_NAME with
    | none => false
    | some value => value ≠ [] ∧ value.getLast? = some 0
  (if hasMultiple then []
    else Details.specialParam Details.MC_ENT_SPRM_ASSET_MULTIPLE (putLE multiple.toNat 4))
  ++ (if hasName ∨ name = [] then []
    else Details.specialParam Details.MC_ENT_SPRM_NAME (name ++ [0]))

/-- The row of an asset.  Its first position is its mempool index, so that
follow-ons of an unconfirmed asset find it. -/
def assetRow (issue : Issue) (quantity : BitVec 64) (name : Bytes) (multiple : BitVec 32) :
    EntityRow where
  key := txidKey issue.txid
  block := assets.block + 1
  offset := assets.rowOffset issue.offset
  quantity := quantity
  entityType := MC_ENT_TYPE_ASSET
  prevPos := -1
  firstPos := -(assets.memPool.length + 1)
  lastPos := 0
  chainPos := -1
  script := issue.specialScript ++ assetParams params issue.script (cString name) multiple
    ++ issue.script

def insertAsset (issue : Issue) (quantity : BitVec 64) (name : Bytes)
    (multiple : BitVec 32) : AssetDB × Option McError :=
  assets.insertKeys params (assets.assetRow params issue quantity name multiple)
    issue.updateMempool

/-- The loop of `InsertAssetFollowOn`: the positions that the mempool will get in
the ledger, and the last of the chain among them. -/
def lastOfChain (firstPos : ℤ) : List EntityRow → ℤ → ℤ → ℤ
  | [], _, lastPos => lastPos
  | row :: rows, pos, lastPos =>
    if row.key.type.isTxid then
      lastOfChain firstPos rows (pos + row.size)
        (if row.key.type.isFollowOn ∧ row.firstPos = firstPos then pos else lastPos)
    else lastOfChain firstPos rows pos lastPos

/-- The row of a follow-on of `original`. -/
def followOnRow (issue : Issue) (quantity : BitVec 64) (original : EntityRow) : EntityRow where
  key := followOnKey issue.txid
  block := assets.block + 1
  offset := assets.rowOffset issue.offset
  quantity := quantity
  entityType := original.entityType
  prevPos := -1
  firstPos := original.firstPos
  lastPos := lastOfChain original.firstPos assets.memPool assets.pos original.chainPos
  chainPos := -1
  script := issue.specialScript ++ issue.script

def checkFollowOn (original : EntityRow) (quantity : BitVec 64) : Option McError :=
  if ¬ params.shortTxIDInTx ∧ original.prevPos < 0 then some .notFound
  else
    match Details.findSpecialParam original.script Details.MC_ENT_SPRM_FOLLOW_ONS with
    | none => some .notAllowed
    | some value =>
      if value.length = 0 ∨ 4 < value.length then some .invalidParameterValue
      else if getLE value value.length = 0 then some .notAllowed
      else if (assets.getTotalQuantity original + quantity).msb then
        some .invalidParameterValue
      else none

def insertAssetFollowOn (issue : Issue) (quantity : BitVec 64) (originalTxid : Hash256) :
    AssetDB × Option McError :=
  match assets.getEntity (txidKey originalTxid) with
  | none => (assets, some .notFound)
  | some original =>
    match assets.checkFollowOn params original quantity with
    | some err => (assets, some err)
    | none =>
      let row := assets.followOnRow issue quantity original
      if (assets.getEntity row.key).isSome then (assets, some .found)
      else if issue.updateMempool then
        ({ assets with memPool := assets.memPool ++ [row] }, none)
      else (assets, none)

end AssetDB

end Amberchain.Entity
