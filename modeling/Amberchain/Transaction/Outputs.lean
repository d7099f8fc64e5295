import Amberchain.Transaction.Types

/-!
# The outputs of a transaction

The four passes of `AcceptMultiChainTransaction` over the outputs.  The first
three apply the permission grants, in an order in which no grant helps to sign
another; the last looks at everything else.
-/

namespace Amberchain.Transaction

open Entity Permission

variable (env : TxEnv) (tx : Tx) (inputs : Inputs) (offset : ℤ)

/-- Changes the permissions once for each input, whatever the changes before it
returned, and says whether one of them succeeded. -/
def anyInput (change : ℕ → Store → Store × Option McError) : List ℕ → Store → Store × Bool
  | [], store => (store, false)
  | i :: rest, store =>
    let (store, err) := change i store
    let (store, found) := anyInput change rest store
    (store, err.isNone || found)

/-- `anyInput` on the permissions of the state. -/
def changeForInputs (change : ℕ → Store → Store × Option McError) (grantors : List ℕ) : TxM Bool :=
  modifyGet fun state =>
    let result := anyInput change grantors state.permissions
    (result.2, { state with permissions := result.1 })

/-- An entry of the script cache has to be the script that the input spends.  An
input that signs everything may then grant admin and mine permissions. -/
def checkCachedScript (cached : McScript.CachedScript) : TxM Unit := do
  rejectIf (tx.vin.length ≤ cached.vin)
    "Metadata script rejected - invalid input in cached script"
  rejectIf (((tx.vin[cached.vin]?).map fun input => env.spentScript input.prevout)
      ≠ some cached.script)
    "Metadata script rejected - cached script mismatch"
  onlyIf (inputs.checkCachedScript ∧ inputs.hashType cached.vin = .all)
    (modify fun state =>
      { state with canGrantAdminMine := state.canGrantAdminMine.set cached.vin true })

def checkCachedScripts (script : McScript) : ℕ → ℕ → TxM Unit
  | 0, _ => pure ()
  | fuel + 1, offset =>
    match script.getCachedScript offset with
    | .error .wrongScript => pure ()
    | .error _ => throw "Metadata script rejected - error in cached script"
    | .ok (none, next) => checkCachedScripts script fuel next
    | .ok (some cached, next) => do
      checkCachedScript env tx inputs cached
      checkCachedScripts script fuel next

def scriptCache (script : McScript) : TxM Bool := do
  let size := (script.elements.map List.length).sum + 2
  onlyIf env.params.cachedInputScript (checkCachedScripts env tx inputs script size 0)
  return env.params.cachedInputScript && decide (script.getCachedScript 0 ≠ .error .wrongScript)

def maxEntityType (params : ChainParams) : ℕ :=
  if params.upgrades then MC_ENT_TYPE_MAX else MC_ENT_TYPE_STREAM_MAX

def newEntityElement (script : McScript) (j : ℕ) : TxM Bool :=
  match script.getNewEntity with
  | .error .wrongScript => return false
  | .error _ => throw "Entity details script rejected - error in script"
  | .ok entity => do
    modify fun state =>
      { state with newEntityType := entity.type, detailsScript := entity.details }
    let state ← get
    rejectIf state.newEntityOutput.isSome "Metadata script rejected - too many new entities"
    rejectIf entity.update
      "Metadata script rejected - entity update script should be preceded by entityref"
    rejectIf (maxEntityType env.params < entity.type)
      "Metadata script rejected - unsupported new entity type"
    onlyIf (entity.type ≠ MC_ENT_TYPE_ASSET)
      (modify fun state => { state with newEntityOutput := some j })
    return true

/-- The details of a new entity behind `OP_RETURN`. -/
def detailsElement (script : McScript) : TxM Unit :=
  match script.getGeneralDetails with
  | .ok details => modify fun state => { state with detailsScript := details }
  | .error .wrongScript => modify fun state => { state with detailsScript := [] }
  | .error _ => throw "Entity details script rejected - error in script"

def newEntityElementOld (script : McScript) (j : ℕ) : TxM Bool :=
  match script.getNewEntityType env.params with
  | .error _ => return false
  | .ok type => do
    modify fun state => { state with newEntityType := type }
    let state ← get
    rejectIf state.newEntityOutput.isSome "Metadata script rejected - too many new entities"
    rejectIf (type ≠ MC_ENT_TYPE_STREAM) "Metadata script rejected - unsupported new entity type"
    modify fun state => { state with newEntityOutput := some j }
    detailsElement (script.setElement 1)
    return true

def createdEntity (script : McScript) (j : ℕ) : TxM Bool :=
  if env.params.opDropDetailsScripts then newEntityElement env script j
  else newEntityElementOld env script j

/-- One `OP_DROP` and `OP_RETURN`: a new entity or a script cache. -/
def checkOneDrop (script : McScript) (j : ℕ) : TxM Unit := do
  let script := script.setElement 0
  let cached ← scriptCache env tx inputs script
  let created ← createdEntity env script j
  rejectIf (!cached && !created)
    (if env.params.cachedInputScript then
      "Metadata script rejected - Unrecognized script, should be new entity"
        ++ " or input script cache"
    else "Metadata script rejected - Unrecognized script, should be new entity")

/-- Two `OP_DROP`s and `OP_RETURN`: for an approval it matters who was an admin
before the transaction. -/
def rememberAdmins (script : McScript) : TxM Unit :=
  match (script.setElement 1).getApproval with
  | .error _ => pure ()
  | .ok _ =>
    modify fun state =>
      if state.hadAdminPermission = [] then
        { state with
          hadAdminPermission := (List.range tx.vin.length).map fun i =>
            state.permissions.canAdmin env.params nullEntity (inputs.destination i) ≠ 0 }
      else state

/-- An `OP_RETURN` output in the first pass. -/
def checkMetadata (script : McScript) (j : ℕ) : TxM Unit := do
  let unsigned := ¬ inputs.scriptHashAllFound
  rejectIf (unsigned ∧ env.params.fixedIn10007
      ∧ ¬ (j < inputs.inputs.length ∧ inputs.hashType j = .single))
    "Output with metadata should be properly signed"
  rejectIf (unsigned ∧ ¬ env.params.fixedIn10007)
    "Tx with metadata should have at least one SIGHASH_ALL output"
  rejectIf (1 < script.numElements ∧ inputs.rejectIfOpDropOpReturn)
    "Non-standard, P2PK or bare multisig inputs cannot be used in this tx"
  rejectIf (1 < script.numElements ∧ script.isDirty)
    "Non-standard, Only OP_DROP elements are allowed in metadata outputs with OP_DROP"
  onlyIf (script.numElements = 2) (checkOneDrop env tx inputs script j)
  rejectIf (3 < script.numElements) "Metadata script rejected - too many elements"
  onlyIf (script.numElements = 3 ∧ env.params.upgrades) (rememberAdmins env tx inputs script)

def checkAssetUpdate (script : McScript) : TxM Unit :=
  match (script.setElement 1).getNewEntity with
  | .error _ => throw "Metadata script rejected - wrong element, should be entity update"
  | .ok entity => do
    modify fun state =>
      { state with newEntityType := entity.type, detailsScript := entity.details }
    rejectIf (!entity.update) "Metadata script rejected - wrong element, should be entity update"
    rejectIf (entity.type ≠ MC_ENT_TYPE_ASSET)
      "Metadata script rejected - entity type mismatch in update script"

def checkItemKey (script : McScript) : TxM Unit :=
  match (script.setElement 1).getItemKey with
  | .error _ => throw "Metadata script rejected - wrong element, should be item key"
  | .ok _ => pure ()

def approveBy (entity : EntityRow) (approval timestamp i : ℕ) (store : Store) :
    Store × Option McError :=
  store.setApproval env.params {
    upgrade := shortTxid entity.key.key
    approval := approval
    admin := some (inputs.destination i)
    blockFrom := entity.upgradeStartBlock
    timestamp := timestamp
    flags := 0
    updateMempool := true
    offset := BitVec.ofInt 32 offset }

def approveUpgrade (entity : EntityRow) (script : McScript) (j : ℕ) : TxM Unit :=
  match (script.setElement 1).getApproval with
  | .error _ => throw "Metadata script rejected - wrong element, should be upgrade approval"
  | .ok (approval, timestamp) => do
    let state ← get
    let admins := (inputs.signers j).filter fun i => state.hadAdminPermission.getD i false
    let found ← changeForInputs (approveBy env inputs offset entity approval timestamp) admins
    rejectIf (!found) "Inputs don't belong to valid admin for approval script"

def validPublishers (entity : EntityRow) (store : Store) (j : ℕ) : Bool :=
  let canWrite (i : ℕ) : Bool :=
    store.canWrite env.params entity.key.key (inputs.destination i) ≠ 0
  if entity.anyoneCanWrite ≠ 0 then true
  else if env.params.fixedIn10007 then (inputs.signers j).all canWrite
  else
    (List.range inputs.inputs.length).all fun i =>
      inputs.signs i j
        && decide (inputs.scriptType i = .pubkeyHash ∨ inputs.scriptType i = .scriptHash)
        && canWrite i

/-- The element behind the entity: an asset update, the key of a stream item or the
approval of an upgrade. -/
def checkSecondElement (entity : EntityRow) (script : McScript) (j : ℕ) : TxM Unit :=
  if env.params.opDropDetailsScripts then
    if entity.entityType = MC_ENT_TYPE_ASSET then checkAssetUpdate script
    else if ¬ env.params.upgrades ∨ entity.entityType ≠ MC_ENT_TYPE_UPGRADE then
      checkItemKey script
    else approveUpgrade env inputs offset entity script j
  else if entity.entityType ≠ MC_ENT_TYPE_STREAM then
    throw "Metadata script rejected - not stream entity"
  else checkItemKey script

def checkPublishers (entity : EntityRow) (j : ℕ) : TxM Unit := do
  let state ← get
  rejectIf (entity.entityType ≠ MC_ENT_TYPE_ASSET ∧ entity.entityType ≠ MC_ENT_TYPE_UPGRADE
      ∧ ¬ validPublishers env inputs entity state.permissions j)
    "Metadata script rejected - Inputs don't belong to valid publisher"

/-- Two `OP_DROP`s and `OP_RETURN` in the last pass. -/
def checkEntityMetadata (script : McScript) (j : ℕ) : TxM Unit :=
  match (script.setElement 0).getEntity with
  | .error _ => throw "Metadata script rejected - wrong element, should be entityref"
  | .ok shortTxid => do
    let state ← get
    match state.assets.findEntityByShortTxID shortTxid with
    | none => throw "Metadata script rejected - entity not found"
    | some entity =>
      checkSecondElement env inputs offset entity script j
      checkPublishers env inputs entity j

/-- An `OP_RETURN` output. -/
def metadataOutput (pass : ℕ) (script : McScript) (j : ℕ) : TxM Unit := do
  onlyIf (pass = 0) (checkMetadata env tx inputs script j)
  onlyIf (pass = 3 ∧ script.numElements = 3) (checkEntityMetadata env inputs offset script j)

def passType (params : ChainParams) (pass : ℕ) (type : PermType) : PermType :=
  match pass with
  | 0 =>
    if params.cachedInputScript then
      type &&& (MC_PTP_CONNECT ||| MC_PTP_SEND ||| MC_PTP_RECEIVE ||| MC_PTP_WRITE)
    else type &&& ~~~(MC_PTP_ACTIVATE ||| MC_PTP_ADMIN)
  | 1 =>
    if params.cachedInputScript then
      type &&& (MC_PTP_CREATE ||| MC_PTP_ISSUE ||| MC_PTP_ACTIVATE)
    else 0
  | 2 =>
    if params.cachedInputScript then type &&& (MC_PTP_MINE ||| MC_PTP_ADMIN)
    else type &&& (MC_PTP_ACTIVATE ||| MC_PTP_ADMIN)
  | _ => 0

/-- `fCheckAdminList`: who may sign is looked up in the lists of the first pass. -/
def checksAdminList (params : ChainParams) (type : PermType) : Bool :=
  params.cachedInputScript || decide (type &&& (MC_PTP_ACTIVATE ||| MC_PTP_ADMIN) ≠ 0)

/-- The inputs that sign an output and are admins of the entity, and those that are
activators, before the transaction has an effect on either. -/
def listEligible (entity : EntityRow) (j e : ℕ) : TxM Unit :=
  modify fun state =>
    let admins := (inputs.signers j).filter fun i =>
      state.permissions.canAdmin env.params entity.key.key (inputs.destination i) ≠ 0
    let activators := (inputs.signers j).filter fun i =>
      state.permissions.canActivate env.params entity.key.key (inputs.destination i) ≠ 0
    { state with
      allowedAdmins := state.allowedAdmins ++ admins.map fun i => (i, j, e)
      allowedActivators := state.allowedActivators ++ activators.map fun i => (i, j, e) }

def eligible (state : TxState) (checkList : Bool) (type : PermType) (i j e : ℕ) : Bool :=
  if checkList then
    if Store.isActivateEnough type then decide ((i, j, e) ∈ state.allowedActivators)
    else decide ((i, j, e) ∈ state.allowedAdmins)
  else inputs.signs i j

def mayGrantType (state : TxState) (entity : EntityRow) (type : PermType) (i : ℕ) : Bool :=
  decide (type &&& (MC_PTP_ADMIN ||| MC_PTP_MINE) = 0) || state.canGrantAdminMine.getD i false
    || decide (0 < entity.entityType)

def elementGrant (entity : EntityRow) (destination : Destination) (type : PermType)
    (element : McScript.PermissionElement) (i : ℕ) : Grant where
  entity := entity.key.key
  address := destination.address.getD 0
  type := type
  admin := inputs.destination i
  blockFrom := element.blockFrom
  blockTo := element.blockTo
  timestamp := element.timestamp
  flags := match destination with
    | .script _ => MC_PFL_IS_SCRIPTHASH
    | _ => 0
  updateMempool := true
  offset := BitVec.ofInt 32 offset

def noteSeedNode (seedNode : Option Hash160) (destination : Destination) (type : PermType) :
    TxM Unit :=
  onlyIf (type &&& MC_PTP_CONNECT ≠ 0 ∧ seedNode.map Destination.key = some destination)
    (modify fun state => { state with seedNodeInvolved := true })

def grantElement (seedNode : Option Hash160) (found : Destinations) (entity : EntityRow)
    (type : PermType) (element : McScript.PermissionElement) (j e : ℕ) : TxM Unit := do
  let destination := found.addresses.headD .none
  rejectIf (destination = .none ∨ 1 < found.addresses.length)
    "Permission script rejected - wrong destination type"
  noteSeedNode seedNode destination type
  let state ← get
  let signers := (List.range inputs.inputs.length).filter fun i =>
    eligible inputs state (checksAdminList env.params element.type) type i j e
      && decide (inputs.destination i ≠ 0)
  let grantors := signers.filter (mayGrantType state entity type)
  modify fun state =>
    { state with
      fullReplayCheckRequired := state.fullReplayCheckRequired || !grantors.isEmpty }
  let granted ← changeForInputs
    (fun i store =>
      store.setPermission env.params (elementGrant inputs offset entity destination type element i))
    grantors
  rejectIf (!granted)
    (if grantors.length < signers.length then
      "Inputs require scriptPubKey cache to support miner precheck"
    else "Inputs don't belong to valid admin")

def permissionElement (seedNode : Option Hash160) (pass : ℕ) (found : Destinations)
    (entity : EntityRow) (element : McScript.PermissionElement) (j e : ℕ) : TxM Unit := do
  rejectIf (!found.ok)
    "Script rejected - wrong destination type in output with permission script"
  let type := passType env.params pass element.type
  onlyIf (pass = 2 ∧ env.params.cachedInputScript ∧ type ≠ 0)
    (modify fun state => { state with adminMinerGrant := true })
  onlyIf (pass = 0 ∧ checksAdminList env.params element.type)
    (listEligible env inputs entity j e)
  onlyIf (type ≠ 0)
    (grantElement env inputs offset seedNode found entity type element j e)

/-- What the loop over the elements of an output carries: the entity that the next
permission element is about, and whether all elements were about permissions. -/
structure ElementScan where
  entity : EntityRow
  isPurePermission : Bool

def outputElement (seedNode : Option Hash160) (pass : ℕ) (found : Destinations)
    (script : McScript) (j : ℕ) (scan : ElementScan) (e : ℕ) : TxM ElementScan :=
  let script := script.setElement e
  match script.getEntity with
  | .ok shortTxid => do
    rejectIf (scan.entity.entityType ≠ 0) "Script rejected - duplicate entity script"
    let state ← get
    match state.assets.findEntityByShortTxID shortTxid with
    | none => throw "Script rejected - entity not found"
    | some entity => return { scan with entity := entity }
  | .error _ =>
    match script.getPermission with
    | .ok element => do
      permissionElement env inputs offset seedNode pass found scan.entity element j e
      return { scan with entity := EntityRow.zero }
    | .error _ => do
      rejectIf (scan.entity.entityType ≠ 0)
        "Script rejected - entity script should be followed by permission"
      return { scan with isPurePermission := false }

def shouldHaveDestination (params : ChainParams) : Bool :=
  !params.allowArbitraryOutputs || !params.anyoneCanReceive || !params.allowMultisigOutputs
    || !params.allowP2shOutputs

def checkDestination (found : Destinations) : TxM Unit := do
  let params := env.params
  rejectIf (!found.ok ∧ (¬ params.anyoneCanReceive ∨ ¬ params.allowArbitraryOutputs))
    "Script rejected - destination required "
  let typesMatter :=
    decide (¬ params.allowArbitraryOutputs ∨ ¬ params.fixedDestinationExtraction)
  rejectIf (typesMatter ∧ found.type = .multisig ∧ ¬ params.allowMultisigOutputs)
    "Script rejected - multisig is not allowed"
  rejectIf (typesMatter ∧ found.type = .scriptHash ∧ ¬ params.allowP2shOutputs)
    "Script rejected - P2SH is not allowed"

def receiveRequired (found : Destinations) (script : Bytes) : ℤ :=
  let addresses : ℤ := found.addresses.length
  if ¬ shouldHaveDestination env.params then 0
  else if found.type = .multisig then
    min (addresses - (((script.headD 0).toNat : ℤ) - 0x50) + 1) addresses
  else addresses

def mayReceive (store : Store) (destination : Destination) : Bool :=
  let address := destination.address.getD 0
  decide (store.canReceive env.params nullEntity address ≠ 0)
    || tx.isCoinBase && decide (store.canMine env.params nullEntity address ≠ 0)

def checkReceive (found : Destinations) (script : McScript) (output : TxOut) : TxM Unit := do
  rejectIf (offset < 0 ∧ env.requireStandard ∧ env.isDust output ∧ ¬ tx.isCoinBase)
    "Transaction amount too small"
  rejectIf (found.addresses.any fun destination => destination = .none)
    "Script rejected - wrong destination type"
  let state ← get
  let received : ℤ := (found.addresses.countP (mayReceive env tx state.permissions) : ℕ)
  rejectIf (0 < receiveRequired env found output.scriptPubKey - received
      ∧ (0 < output.value ∨ 0 < script.numElements ∨ ¬ env.params.anyoneCanReceiveEmptyFeature))
    "One of the outputs doesn't have receive permission"

def addOutputQuantities (script : McScript) : TxM Unit := do
  let state ← get
  match extractOutputAssetQuantities env.params script state.amountsOut with
  | .error reason => throw reason
  | .ok amounts => modify fun state => { state with amountsOut := amounts }

/-- An output that is not an `OP_RETURN` output. -/
def payingOutput (seedNode : Option Hash160) (pass : ℕ) (script : McScript) (output : TxOut)
    (j : ℕ) : TxM Unit := do
  let found := Script.extractDestinations env.script env.params output.scriptPubKey
  onlyIf (pass = 0 ∧ shouldHaveDestination env.params) (checkDestination env found)
  let scan ← (List.range script.numElements).foldlM
    (outputElement env inputs offset seedNode pass found script j)
    ⟨EntityRow.zero, decide (0 < script.numElements)⟩
  rejectIf (scan.entity.entityType ≠ 0) "Script rejected - incomplete entity script"
  onlyIf (pass = 3) (addOutputQuantities env script)
  onlyIf (pass = 3 ∧ ¬ (scan.isPurePermission ∧ output.value ≤ 0))
    (checkReceive env tx offset found script output)

def processOutput (seedNode : Option Hash160) (pass j : ℕ) (output : TxOut) : TxM Unit :=
  let script := McScript.setScript env.params output.scriptPubKey
  if script.isOpReturn then metadataOutput env tx inputs offset pass script j
  else payingOutput env tx inputs offset seedNode pass script output j

def runPass (seedNode : Option Hash160) (pass : ℕ) : TxM Unit :=
  tx.vout.zipIdx.forM fun (output, j) => processOutput env tx inputs offset seedNode pass j output

end Amberchain.Transaction
