import Amberchain.Transaction.Outputs

/-!
# Issues and follow-ons

`AcceptAssetGenesisFromPredefinedIssuers`: what a transaction issues is read from
its outputs, checked against the asset database and the issuers among the inputs,
and then recorded.  The permissions of a new asset are granted behind a checkpoint
of their own.
-/

namespace Amberchain.Transaction

open Entity Permission

def MC_ENT_MAX_STORED_ISSUERS : ℕ := 128

variable (env : TxEnv) (tx : Tx) (inputs : Inputs) (offset : ℤ)

/-- The variables of the loop over the outputs.  `detailsUpdate` is set once
details were found, to whether they update an asset; `entity` and `shortTxid` are
those of the update. -/
structure IssueScan where
  total : BitVec 64
  name : Bytes
  multiple : BitVec 32
  details : Bytes
  detailsUpdate : Option Bool
  shortTxid : BitVec 128
  entity : EntityRow
  newIssue : Bool
  amounts : Amounts

/-- The variables before the loop. -/
def IssueScan.start : IssueScan where
  total := 0
  name := []
  multiple := 1
  details := []
  detailsUpdate := none
  shortTxid := 0
  entity := EntityRow.zero
  newIssue := false
  amounts := []

/-- Details of a new asset, in an output with one `OP_DROP`. -/
def newAssetDetails (script : McScript) (scan : IssueScan) : Except String IssueScan :=
  match (script.setElement 0).getNewEntity with
  | .error .wrongScript => .ok scan
  | .error _ => .error "Asset details script rejected - error in script"
  | .ok entity =>
    let scan := { scan with details := entity.details }
    if entity.type ≠ MC_ENT_TYPE_ASSET then .ok scan
    else if scan.detailsUpdate.isSome then
      .error "Metadata script rejected - too many new entities"
    else if entity.update then .ok scan
    else
      let multiple := Details.findSpecialParam entity.details Details.MC_ENT_SPRM_ASSET_MULTIPLE
      .ok { scan with
        detailsUpdate := some false
        name := (Details.findSpecialParam entity.details Details.MC_ENT_SPRM_NAME).getD []
        multiple := (multiple.map fun value =>
          BitVec.ofNat 32 (getLE value value.length)).getD 1 }

/-- Details that update an asset.  Details that do not verify are skipped, but
their bytes have been copied. -/
def assetUpdateDetails (assets : AssetDB) (script : McScript) (scan : IssueScan) :
    Except String IssueScan :=
  let second := script.setElement 1
  match second.readNewEntity with
  | .error _ => .ok scan
  | .ok entity =>
    let scan := { scan with details := entity.details }
    if ¬ Details.verify entity.details then .ok scan
    else if ¬ entity.update then
      .error "Metadata script rejected - wrong element, should be entity update"
    else if scan.detailsUpdate.isSome then
      .error "Metadata script rejected - too many new new entities/entity updates"
    else if entity.type ≠ MC_ENT_TYPE_ASSET then
      .error "Metadata script rejected - wrong entity type, should be asset"
    else
      match (second.setElement 0).getEntity with
      | .error _ => .error "Metadata script rejected - wrong element, should be entityref"
      | .ok shortTxid =>
        match assets.findEntityByShortTxID shortTxid with
        | none => .error "Metadata script rejected - entity not found"
        | some found =>
          .ok { scan with
            detailsUpdate := some true
            shortTxid := shortTxid
            entity := found }

def oldAssetDetails (script : McScript) (scan : IssueScan) : Except String IssueScan :=
  if scan.details ≠ [] ∨ script.numElements ≠ 1 then .ok scan
  else
    let script := script.setElement 0
    match script.getAssetDetails with
    | .ok found =>
      .ok { scan with name := found.name, multiple := found.multiple, details := found.details }
    | .error .wrongScript =>
      -- the multiple is read before the name turns out wrong
      match script.assetDetailsData with
      | .ok data => .ok { scan with multiple := BitVec.ofNat 32 (getLE data 4) }
      | .error _ => .ok scan
    | .error _ => .error "Asset details script rejected - error in script"

/-- An `OP_RETURN` output. -/
def issueMetadata (assets : AssetDB) (script : McScript) (scan : IssueScan) :
    Except String IssueScan :=
  if env.params.opDropDetailsScripts then do
    let scan ← if script.numElements = 2 then newAssetDetails script scan else .ok scan
    if 0 < script.numElements then assetUpdateDetails assets script scan else .ok scan
  else oldAssetDetails script scan

/-- One element of an output that is not an `OP_RETURN` output. -/
def issueElement (script : McScript) (output : Bytes) (scan : IssueScan) (element : ℕ) :
    Except String IssueScan :=
  let script := script.setElement element
  match script.getAssetGenesis with
  | .ok quantity =>
    if (quantity + scan.total).msb then .error "Asset issue script rejected - overflow"
    else
      match (Script.extractDestination env.script env.params output).bind
          Destination.address with
      | none => .error "Asset issue script rejected - wrong destination type"
      | some _ => .ok { scan with newIssue := true, total := scan.total + quantity }
  | .error .wrongScript =>
    match getAssetQuantities env.params script scan.amounts
        MC_SCR_ASSET_SCRIPT_TYPE_FOLLOWON with
    | .ok amounts => .ok { scan with amounts := amounts }
    | .error .wrongScript => .ok scan
    | .error _ => .error "Asset follow-on script rejected - error in follow-on script"
  | .error _ => .error "Asset issue script rejected - error in script"

def issueOutput (assets : AssetDB) (scan : IssueScan) (output : TxOut) : Except String IssueScan :=
  let script := McScript.setScript env.params output.scriptPubKey
  if script.isOpReturn then issueMetadata env assets script scan
  else
    (List.range script.numElements).foldlM (issueElement env script output.scriptPubKey) scan

def scanIssue (assets : AssetDB) : Except String IssueScan :=
  tx.vout.foldlM (issueOutput env assets) IssueScan.start

def followOnTarget (assets : AssetDB) (scan : IssueScan) :
    Except String (EntityRow × BitVec 64) := do
  let row := scan.amounts.head?
  let entity ←
    match row with
    | none =>
      match assets.findEntityByShortTxID scan.shortTxid with
      | none => .error "Details script rejected - entity not found"
      | some entity => .ok entity
    | some row =>
      match assets.findEntityByFullRef row.ref with
      | none => .error "Asset follow-on script rejected - asset not found"
      | some entity => .ok entity
  let quantity := (row.map AmountRow.quantity).getD 0
  if ¬ env.params.shortTxIDInTx ∧ entity.isUnconfirmedGenesis then
    .error "Asset follow-on script rejected - unconfirmed asset"
  else if entity.allowedFollowOns = 0 then
    .error "Asset follow-on script rejected - follow-ons not allowed for this asset"
  else if scan.detailsUpdate.isSome ∧ shortTxid entity.key.key ≠ scan.shortTxid then
    .error "Asset follow-on script rejected - mismatch in follow-on quantity asset and details script"
  else if row.isSome ∧ (quantity + assets.getTotalQuantity entity).msb then
    .error "Asset follow-on script rejected - exceeds maximal value for asset"
  else .ok (entity, quantity)

/-- An issue or a follow-on that passed the checks. -/
structure IssuePlan where
  newIssue : Bool
  total : BitVec 64
  name : Bytes
  multiple : BitVec 32
  details : Bytes
  entity : EntityRow
  issuers : List (Hash160 × BitVec 32)

def issuersOf (store : Store) (entity : Hash256) : List (Hash160 × BitVec 32) :=
  ((List.range inputs.inputs.length).filter fun i =>
    inputs.hashType i = .all ∧ inputs.destination i ≠ 0
      ∧ store.canIssue env.params entity (inputs.destination i) ≠ 0).map fun i =>
    (inputs.destination i,
      if inputs.scriptType i = .scriptHash then MC_PFL_IS_SCRIPTHASH else 0)

/-- The checks of an issue up to its first change of a database.  Nothing is
issued in a coinbase. -/
def planIssue (newEntity : Bool) (permissions : Store) (assets : AssetDB) :
    Except String (Option IssuePlan) :=
  if tx.isCoinBase then .ok none
  else do
    let scan ← scanIssue env tx assets
    let newIssue := scan.newIssue || scan.detailsUpdate = some false
    let followOn := decide (scan.detailsUpdate = some true) || !scan.amounts.isEmpty
    if followOn ∧ 1 < scan.amounts.length then
      .error "Asset follow-on script rejected - follow-on for several assets"
    else if followOn ∧ newIssue then
      .error "Asset follow-on script rejected - follow-on and issue in one transaction"
    else
      let target ← if followOn then followOnTarget env assets scan
        else .ok (EntityRow.zero, scan.total)
      if ¬ newIssue ∧ ¬ followOn then .ok none
      else if newEntity then
        .error ("Asset issue script rejected - not allowed in this transaction, "
          ++ "conflicts with other entities")
      else
        let entity := if newIssue then nullEntity else target.1.key.key
        .ok (some {
          newIssue := newIssue
          total := target.2
          name := scan.name
          multiple := scan.multiple
          details := scan.details
          entity := target.1
          issuers := issuersOf env inputs permissions entity })

/-- The rows that an entity is created with: its first member and what its
creators may do. -/
def genesisGrant (entity : Hash256) (address : Hash160) (type : PermType) (admin : Hash160)
    (flags : BitVec 32) (updateMempool : Bool) : Grant where
  entity := entity
  address := address
  type := type
  admin := admin
  blockFrom := 0
  blockTo := Store.maxBlock
  timestamp := 0
  flags := flags ||| MC_PFL_ENTITY_GENESIS
  updateMempool := updateMempool
  offset := BitVec.ofInt 32 offset

def grantAll (params : ChainParams) : List Grant → Store → Store × Option McError
  | [], store => (store, none)
  | grant :: grants, store =>
    match store.setPermission params grant with
    | (store, none) => grantAll params grants store
    | (store, some err) => (store, some err)

/-- `grantAll` on the permissions of the state. -/
def applyGrants (params : ChainParams) (grants : List Grant) : TxM (Option McError) :=
  modifyGet fun state =>
    let result := grantAll params grants state.permissions
    (result.2, { state with permissions := result.1 })

def distinctIssuers (issuers : List (Hash160 × BitVec 32)) : List (Hash160 × BitVec 32) :=
  issuers.foldl
    (fun stored issuer =>
      if stored.any fun other => other.1 = issuer.1 then stored else stored ++ [issuer]) []

/-- The issuer parameters of an entity: those among the first
`MC_ENT_MAX_STORED_ISSUERS` that come with a new address, and an empty one at the
end. -/
def issuerParams (issuers : List (Hash160 × BitVec 32)) : Bytes :=
  let stored := distinctIssuers (issuers.take MC_ENT_MAX_STORED_ISSUERS)
  (stored.flatMap fun issuer =>
    Details.specialParam Details.MC_ENT_SPRM_ISSUER
      (putLE issuer.1.toNat 20 ++ putLE issuer.2.toNat 4))
    ++ Details.specialParam Details.MC_ENT_SPRM_ISSUER [0]

def issueGrants (plan : IssuePlan) (accept : Bool) : List Grant :=
  let admin := (plan.issuers.headD (0, 0)).1
  genesisGrant offset tx.hash 0 MC_PTP_CONNECT admin 0 accept ::
    (distinctIssuers plan.issuers).map fun issuer =>
      genesisGrant offset tx.hash issuer.1 (MC_PTP_ADMIN ||| MC_PTP_ISSUE) admin 0 accept

/-- The permissions of a new asset, behind a checkpoint that replaces the one of
the transaction. -/
def grantIssue (plan : IssuePlan) (accept : Bool) : TxM Unit := do
  modify fun state => { state with permissions := state.permissions.setCheckPoint }
  let err ← applyGrants env.params (issueGrants tx offset plan accept)
  onlyIf (err.isSome || !accept)
    (modify fun state => { state with permissions := state.permissions.rollBackToCheckPoint })
  rejectIf err.isSome "Cannot update permission database for issued asset"

/-- `InsertAsset` or `InsertAssetFollowOn` -/
def insertIssue (plan : IssuePlan) (accept : Bool) (assets : AssetDB) : AssetDB × Option McError :=
  let issue : Issue :=
    ⟨tx.hash, offset, plan.details, issuerParams plan.issuers, accept⟩
  if plan.newIssue then
    assets.insertAsset env.params issue plan.total plan.name plan.multiple
  else assets.insertAssetFollowOn env.params issue plan.total plan.entity.key.key

def recordIssue (plan : IssuePlan) (accept : Bool) : TxM Unit := do
  let err ← modifyGet fun state =>
    let result := insertIssue env tx offset plan accept state.assets
    (result.2, { state with assets := result.1 })
  rejectIf (err = some .found)
    "Asset issue script rejected - entity with this name/asset-ref/txid already exists"
  rejectIf err.isSome "Asset issue script rejected - could not insert new asset to database"
  let state ← get
  rejectIf (accept ∧ 0 ≤ offset ∧ (state.assets.findEntityByTxID tx.hash).isNone)
    "Asset issue script rejected - could not insert new asset to database"

def applyIssue (plan : IssuePlan) (accept : Bool) : TxM Unit := do
  modify fun state => { state with fullReplayCheckRequired := true }
  rejectIf plan.issuers.isEmpty "Inputs don't belong to valid issuer"
  onlyIf plan.newIssue (grantIssue env tx offset plan accept)
  recordIssue env tx offset plan accept

/-- `AcceptAssetGenesisFromPredefinedIssuers` -/
def acceptAssetGenesis (accept : Bool) : TxM Unit := do
  let state ← get
  match planIssue env tx inputs state.newEntityOutput.isSome state.permissions state.assets with
  | .error reason => throw reason
  | .ok none => pure ()
  | .ok (some plan) => applyIssue env tx offset plan accept

end Amberchain.Transaction
