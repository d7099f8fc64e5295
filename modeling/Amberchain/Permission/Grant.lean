import Amberchain.Permission.Access

/-!
# Setting permissions

`SetPermission` appends one row to the mempool for each permission type of the
mask.  The row takes effect at once when enough admins have made the same grant
since the last row in consensus; otherwise it keeps the previous block range and
waits.
-/

namespace Amberchain.Permission

/-- The arguments that `SetPermission` passes on to every row it adds. -/
structure Grant where
  entity : Hash256
  address : Hash160
  type : PermType
  admin : Hash160
  blockFrom : ℕ
  blockTo : ℕ
  timestamp : ℕ
  flags : BitVec 32
  updateMempool : Bool
  offset : BitVec 32
deriving DecidableEq

namespace Store

variable (params : ChainParams) (store : Store)

def consensusParam (entity : Hash256) (type : PermType) : Option ℤ :=
  if entity = nullEntity then
    if type = MC_PTP_ADMIN then some params.adminConsensusAdmin
    else if type = MC_PTP_MINE then some params.adminConsensusMine
    else if type = MC_PTP_ACTIVATE then some params.adminConsensusActivate
    else if type = MC_PTP_ISSUE then some params.adminConsensusIssue
    else if type = MC_PTP_CREATE then some params.adminConsensusCreate
    else none
  else if entity = upgradeEntity ∧ type = MC_PTP_UPGRADE then
    some params.adminConsensusUpgrade
  else none

/-- `AdminConsensus`, in unsigned 32-bit arithmetic. -/
def adminConsensus (entity : Hash256) (type : PermType) : BitVec 32 :=
  if store.getAdminCount params = 0 then 1
  else
    match consensusParam params entity type with
    | none => 1
    | some share =>
      let consensus := BitVec.ofInt 32 share
      if store.isSetupPeriod params ∨ consensus = 0 then 1
      else
        (store.getAdminCount params * consensus - 1).udiv
          (BitVec.ofNat 32 MC_PRM_DECIMAL_GRANULARITY) + 1

/-- The row before `row` in the chain of its key, from the mempool or checked
against the ledger. -/
def previousRow (newRow row : LedgerRow) : Except McError LedgerRow :=
  if store.memPoolStart ≤ row.prevRow then
    .ok (store.memPool.getD (row.prevRow - store.memPoolStart) (LedgerRow.zero ⟨0, 0, 0⟩))
  else if store.ledger.size ≤ row.prevRow then .error .dbOpenError
  else
    let found := store.ledger.getRow row.prevRow
    if found.key ≠ newRow.key ∨ row.prevRow ≠ found.thisRow then
      .error .dbOpenError
    else .ok found

/-- `newRow` and `row` make the same grant. -/
def sameGrant (newRow row : LedgerRow) : Bool :=
  row.grantFrom = newRow.grantFrom ∧ row.grantTo = newRow.grantTo

/-- One round of `VerifyConsensus`: files `row` under its admin in `m_TmpPool`
and counts it.  Only the newest row of an admin counts. -/
def countAdmin (newRow row : LedgerRow) (tmpPool : List LedgerRow)
    (required : ℤ) : List LedgerRow × ℤ :=
  let row := { row with key := { row.key with address := row.admin } }
  let once := if sameGrant newRow row then 1 else 0
  match tmpPool.findIdx? fun other => other.key = row.key with
  | none => (tmpPool ++ [row], required - once)
  | some found =>
    let other := tmpPool.getD found row
    if other.timestamp < row.timestamp then
      let again := if sameGrant newRow other then 1 else 0
      (tmpPool.set found row, required + again - once)
    else (tmpPool, required)

/-- The loop of `VerifyConsensus`.  The rows of a chain have falling numbers, so
`m_Row` bounds the number of rounds. -/
def verifyConsensusLoop (newRow lastRow : LedgerRow) :
    ℕ → LedgerRow → List LedgerRow → ℤ → Except McError LedgerRow
  | 0, _, _, _ => .error .internalError
  | fuel + 1, row, tmpPool, required =>
    let counted := countAdmin newRow row tmpPool required
    let reverted : LedgerRow :=
      { newRow with
        consensus := 0
        blockFrom := lastRow.blockFrom
        blockTo := lastRow.blockTo }
    if counted.2 = 0 then .ok newRow
    else if row.prevRow = 0 then .ok reverted
    else
      match store.previousRow newRow row with
      | .error err => .error err
      | .ok previous =>
        if previous.consensus ≠ 0 then .ok reverted
        else verifyConsensusLoop newRow lastRow fuel previous counted.1 counted.2

/-- `VerifyConsensus`: the row with its consensus field set, and its block range
put back to the last row's when consensus is not reached. -/
def verifyConsensus (newRow lastRow : LedgerRow) : Except McError LedgerRow :=
  let consensus := store.adminConsensus params newRow.key.entity newRow.key.type
  let newRow := { newRow with consensus := consensus }
  if consensus.toInt ≤ 1 then .ok newRow
  else
    store.verifyConsensusLoop newRow lastRow (store.row + 1) newRow [] consensus.toInt

/-- The row that `SetPermissionInternal` builds for one type, before consensus
is checked.  Without any admin the address signs for itself. -/
def grantRow (grant : Grant) (type : PermType) (lastRow : LedgerRow) :
    LedgerRow where
  key := ⟨grant.entity, grant.address, type⟩
  prevRow := lastRow.thisRow
  blockFrom := grant.blockFrom
  blockTo := grant.blockTo
  consensus := 0
  flags := grant.flags
  admin := if store.adminCount ≠ 0 then grant.admin else grant.address
  grantFrom := grant.blockFrom
  grantTo := grant.blockTo
  timestamp := grant.timestamp
  offset := grant.offset
  blockReceived := store.nextBlock
  thisRow := store.row

/-- `MemPool->Add` with the row counter. -/
def addMemPool (row : LedgerRow) : Store :=
  { store with memPool := store.memPool ++ [row], row := store.row + 1 }

/-- The counts kept for `ClearMemPool` are those from before the first mempool
row, unless a fork is being verified. -/
def saveClearedCounts : Store :=
  if store.memPool = [] ∧ store.copiedRow = 0 then
    { store with
      clearedAdminCount := store.adminCount
      clearedMinerCount := store.minerCount
      clearedMinerCountForMinerVerification := store.minerCount }
  else store

/-- How a count moves when a permission goes from `before` to `after`. -/
def countDelta (before after : PermType) : BitVec 32 :=
  if before = after then 0 else if before ≠ 0 then -1 else 1

/-- Adjusts the counts after a row of `key` was added, for the admins and miners
of the null entity. -/
def adjustCounts (key : PermKey) (lastAllowed : PermType) : Store :=
  let delta := countDelta lastAllowed (store.permission key)
  if key.entity = nullEntity ∧ key.type = MC_PTP_ADMIN then
    { store with adminCount := store.adminCount + delta }
  else if key.entity = nullEntity ∧ key.type = MC_PTP_MINE then
    { store with minerCount := store.minerCount + delta }
  else store

/-- The body of `SetPermissionInternal` for a single type. -/
def setType (grant : Grant) (type : PermType) : Store × Option McError :=
  let key : PermKey := ⟨grant.entity, grant.address, type⟩
  let last := store.getPermission key true
  match store.verifyConsensus params (store.grantRow grant type last.2) last.2 with
  | .error err => (store, some err)
  | .ok row =>
    if grant.updateMempool then
      ((store.saveClearedCounts.addMemPool row).adjustCounts key last.1, none)
    else (store, none)

/-- The types of `SetPermissionInternal` in the order in which a mask is split
up. -/
def permissionTypes : List PermType :=
  [MC_PTP_CONNECT, MC_PTP_SEND, MC_PTP_RECEIVE]
    ++ (if params.streams then [MC_PTP_WRITE, MC_PTP_CREATE] else [])
    ++ [MC_PTP_ISSUE, MC_PTP_MINE, MC_PTP_ACTIVATE, MC_PTP_ADMIN]
    ++ (if params.upgrades then [MC_PTP_UPGRADE] else [])

def setTypes (grant : Grant) : List PermType → Store → Store × Option McError
  | [], store => (store, none)
  | type :: types, store =>
    match store.setType params grant type with
    | (store, none) => setTypes grant types store
    | (store, some err) => (store, some err)

/-- `SetPermissionInternal`: a mask is split into its types, and the recursive
call for one of them runs the single-type body. -/
def setPermissionInternal (grant : Grant) : Store × Option McError :=
  setTypes params grant
    ((permissionTypes params).filter fun type => type &&& grant.type ≠ 0) store

def isActivateEnough (type : PermType) : Bool :=
  type &&& (MC_PTP_ADMIN ||| MC_PTP_ISSUE ||| MC_PTP_MINE ||| MC_PTP_ACTIVATE
    ||| MC_PTP_CREATE) = 0

/-- The signer check of `SetPermission`. -/
def mayGrant (entity : Hash256) (type : PermType) (admin : Hash160) : Bool :=
  store.canAdmin params entity admin ≠ 0
    ∨ isActivateEnough type ∧ store.canActivate params entity admin ≠ 0

/-- `SetPermission`: the rows an entity is created with need no signer
check. -/
def setPermission (grant : Grant) : Store × Option McError :=
  if (grant.entity = nullEntity ∨ grant.flags &&& MC_PFL_ENTITY_GENESIS = 0)
      ∧ ¬ store.mayGrant params grant.entity grant.type grant.admin then
    (store, some .notAllowed)
  else store.setPermissionInternal params grant

def upgradeAddress (upgrade : BitVec 128) : Hash160 :=
  upgrade.setWidth 160

/-- `IsApprovedInternal` without the check of the current block. -/
def isApproved (upgrade : BitVec 128) : Bool :=
  let row := store.permissionRow ⟨upgradeEntity, upgradeAddress upgrade, MC_PTP_UPGRADE⟩ true
  row.blockFrom < row.blockTo

/-- The arguments of `SetApproval`; without an admin the upgrade itself is
recorded. -/
structure Approval where
  upgrade : BitVec 128
  approval : ℕ
  admin : Option Hash160
  blockFrom : ℕ
  timestamp : ℕ
  flags : BitVec 32
  updateMempool : Bool
  offset : BitVec 32

/-- `(uint32_t)(-1)` -/
def maxBlock : ℕ := 0xFFFFFFFF

def upgradeRoot (approval : Approval) : Grant where
  entity := upgradeEntity
  address := 0
  type := MC_PTP_CONNECT
  admin := 0
  blockFrom := 0
  blockTo := maxBlock
  timestamp := approval.timestamp
  flags := MC_PFL_ENTITY_GENESIS
  updateMempool := approval.updateMempool
  offset := approval.offset

def approvalGrant (approval : Approval) : Grant where
  entity := upgradeEntity
  address := upgradeAddress approval.upgrade
  type := if approval.admin.isNone then MC_PTP_CONNECT else MC_PTP_UPGRADE
  admin := approval.admin.getD (upgradeAddress approval.upgrade)
  blockFrom := approval.blockFrom
  blockTo := if approval.approval ≠ 0 then maxBlock else 0
  timestamp := approval.timestamp
  flags := approval.flags
  updateMempool := approval.updateMempool
  offset := approval.offset

def setApproval (approval : Approval) : Store × Option McError :=
  let rooted :=
    if store.permission ⟨upgradeEntity, 0, MC_PTP_CONNECT⟩ = 0 then
      store.setPermissionInternal params (upgradeRoot approval)
    else (store, none)
  match rooted with
  | (store, some err) => (store, some err)
  | (store, none) =>
    if approval.admin.isNone ∨ ¬ store.isApproved approval.upgrade then
      store.setPermissionInternal params (approvalGrant approval)
    else (store, none)

/-- `SetCheckPoint`: there is one slot, which every call overwrites. -/
def setCheckPoint : Store :=
  { store with
    checkPointRow := store.row
    checkPointAdminCount := store.adminCount
    checkPointMinerCount := store.minerCount
    checkPointMemPoolSize := store.memPool.length }

def rollBackToCheckPoint : Store :=
  { store with
    row := store.checkPointRow
    adminCount := store.checkPointAdminCount
    minerCount := store.checkPointMinerCount
    memPool := store.memPool.take store.checkPointMemPoolSize }

end Store

end Amberchain.Permission
