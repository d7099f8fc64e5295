import Amberchain.Permission.Store

/-!
# Access checks and permission counts

The `Can…` checks over `GetPermission`, and the admin and miner counts that
`UpdateCounts` recomputes from the admin/miner list.  Each check returns the
permission type or zero, as in the source.
-/

namespace Amberchain.Permission

namespace Store

variable (params : ChainParams) (store : Store)

def canConnect (entity : Hash256) (address : Hash160) : PermType :=
  if !params.isProtocolMultichain then MC_PTP_CONNECT
  else if entity = nullEntity ∧ params.anyoneCanConnect then MC_PTP_CONNECT
  else store.permission ⟨entity, address, MC_PTP_CONNECT⟩

def canSend (entity : Hash256) (address : Hash160) : PermType :=
  if !params.isProtocolMultichain then MC_PTP_SEND
  else if entity = nullEntity ∧ params.anyoneCanSend then MC_PTP_SEND
  else
    let holds (type : PermType) : Bool :=
      store.permission ⟨entity, address, type⟩ ≠ 0
    if holds MC_PTP_SEND
        || params.streams && (holds MC_PTP_ISSUE || holds MC_PTP_CREATE)
        || holds MC_PTP_ADMIN || holds MC_PTP_ACTIVATE then MC_PTP_SEND
    else 0

def canReceive (entity : Hash256) (address : Hash160) : PermType :=
  if !params.isProtocolMultichain then MC_PTP_RECEIVE
  else if entity = nullEntity ∧ params.anyoneCanReceive then MC_PTP_RECEIVE
  else
    let holds (type : PermType) : Bool :=
      store.permission ⟨entity, address, type⟩ ≠ 0
    if holds MC_PTP_RECEIVE || holds MC_PTP_ADMIN || holds MC_PTP_ACTIVATE then
      MC_PTP_RECEIVE
    else 0

def canWrite (entity : Hash256) (address : Hash160) : PermType :=
  if !params.isProtocolMultichain then 0
  else store.permission ⟨entity, address, MC_PTP_WRITE⟩

def canCreate (entity : Hash256) (address : Hash160) : PermType :=
  let anyone :=
    if params.fixedIn1001020003 then params.anyoneCanCreate
    else params.anyoneCanReceive
  if entity = nullEntity ∧ anyone then MC_PTP_CREATE
  else store.permission ⟨entity, address, MC_PTP_CREATE⟩

def canIssue (entity : Hash256) (address : Hash160) : PermType :=
  if entity = nullEntity ∧ params.anyoneCanIssue then MC_PTP_ISSUE
  else store.permission ⟨entity, address, MC_PTP_ISSUE⟩

def canMine (entity : Hash256) (address : Hash160) : PermType :=
  if !params.isProtocolMultichain then MC_PTP_MINE
  else if entity = nullEntity ∧ params.anyoneCanMine then MC_PTP_MINE
  else
    let result := (store.getPermission ⟨entity, address, MC_PTP_MINE⟩ false).1
    let last :=
      (store.getPermission ⟨entity, address, MC_PTP_BLOCK_MINER⟩ false).2.blockFrom
    if result ≠ 0 ∧ entity = nullEntity ∧ last ≠ 0
        ∧ isBarredByDiversity params store.nextBlock last store.clearedMinerCount then 0
    else result

/-- Everyone is an admin before the first block, or while there is no admin on
the protocols without streams. -/
def canAdmin (entity : Hash256) (address : Hash160) : PermType :=
  if params.streams ∧ store.block = -1 then MC_PTP_ADMIN
  else if ¬ params.streams ∧ store.adminCount = 0 then MC_PTP_ADMIN
  else if entity = nullEntity ∧ params.anyoneCanAdmin then MC_PTP_ADMIN
  else store.permission ⟨entity, address, MC_PTP_ADMIN⟩

def canActivate (entity : Hash256) (address : Hash160) : PermType :=
  if entity = nullEntity ∧ params.anyoneCanActivate then MC_PTP_ACTIVATE
  else if store.permission ⟨entity, address, MC_PTP_ACTIVATE⟩ ≠ 0
      ∨ store.canAdmin params entity address ≠ 0 then MC_PTP_ACTIVATE
  else 0

def getAdminCount : BitVec 32 :=
  if params.anyoneCanAdmin ∧ params.fixedIn1000920001 then 1
  else store.adminCount

/-- The mempool loop of `FindLastAllowedMinerRow`.  The previous row id is used
as a mempool index there; an index past the mempool reads a zero row here. -/
def walkMinerRow (block : ℕ) : ℕ → LedgerRow → LedgerRow
  | 0, row => row
  | fuel + 1, row =>
    if store.memPoolStart ≤ row.thisRow ∧ block ≤ row.blockReceived
        ∧ 0 < row.prevRow then
      walkMinerRow block fuel
        (store.memPool.getD row.prevRow (LedgerRow.zero ⟨0, 0, 0⟩))
    else row

def findLastAllowedMinerRow (row : LedgerRow) (block : ℕ) (prevResult : PermType) : PermType :=
  if row.thisRow < store.memPoolStart then prevResult
  else if row.blockReceived < block then prevResult
  else
    let pldRow := store.walkMinerRow block store.memPool.length row
    if pldRow.prevRow = 0 then 0
    else
      let pldRow :=
        if pldRow.thisRow < store.memPoolStart then
          store.ledger.getRow pldRow.thisRow
        else pldRow
      if inRange pldRow block then MC_PTP_MINE else 0

def canMineBlockOnFork (address : Hash160) (block lastAfterFork : ℕ) : PermType :=
  if !params.isProtocolMultichain then MC_PTP_MINE
  else if params.anyoneCanMine then MC_PTP_MINE
  else if block = 0 then 0
  else
    let found := store.getPermission ⟨nullEntity, address, MC_PTP_MINE⟩ true
    let result := store.findLastAllowedMinerRow found.2 block found.1
    let miner :=
      (store.getPermission ⟨nullEntity, address, MC_PTP_BLOCK_MINER⟩ false).2
    let last :=
      if lastAfterFork ≠ 0 then lastAfterFork
      else if miner.thisRow ≠ 0 then miner.blockFrom
      else 0
    if result ≠ 0 ∧ last ≠ 0 ∧ isBarredByDiversity params block last
        store.clearedMinerCountForMinerVerification then 0
    else result

/-- The entries of the admin/miner list that `UpdateCounts` visits and that
pass.  The entries of the zero address sort before the list marker, so the scan
that starts there never reaches them. -/
def listCount (type : PermType) (allowed : Hash160 → Bool) : ℕ :=
  (store.db.adminMinerList.filter fun entry =>
    entry.2 = type ∧ entry.1 ≠ 0 ∧ allowed entry.1).card

def adminAllowed (address : Hash160) : Bool :=
  store.permission ⟨nullEntity, address, MC_PTP_ADMIN⟩ ≠ 0

def minerAllowed (address : Hash160) : Bool :=
  let found := store.getPermission ⟨nullEntity, address, MC_PTP_MINE⟩ true
  let result :=
    if 0 < store.copiedRow then
      store.findLastAllowedMinerRow found.2 store.nextBlock found.1
    else found.1
  result ≠ 0

def adminMinerKeys (type : PermType) : Finset PermKey :=
  store.db.rows.keys.filter fun key => key.entity = nullEntity ∧ key.type = type

/-- `InBlockRange` on the database row of a key. -/
def keyInRange (key : PermKey) : Bool :=
  match store.db.rows.lookup key with
  | none => false
  | some dbRow =>
    dbRow.blockFrom ≤ store.nextBlock ∧ store.nextBlock < dbRow.blockTo

/-- What `UpdateCounts` writes: the list itself, when it has no marker yet. -/
def updateCountsBatch : List DBWrite :=
  if store.db.listMarker ∨ store.db.header = none then []
  else
    [.listMarker, .listEntries ((store.adminMinerKeys MC_PTP_ADMIN
        ∪ store.adminMinerKeys MC_PTP_MINE).image fun key => (key.address, key.type))]

def updateCounts : Store :=
  if store.db.listMarker then
    { store with
      adminCount := BitVec.ofNat 32 (store.listCount MC_PTP_ADMIN store.adminAllowed)
      minerCount := BitVec.ofNat 32 (store.listCount MC_PTP_MINE store.minerAllowed) }
  else if store.db.header = none then
    { store with adminCount := 0, minerCount := 0 }
  else
    { store with
      db := store.db.commit store.updateCountsBatch
      adminCount := BitVec.ofNat 32
        ((store.adminMinerKeys MC_PTP_ADMIN).filter fun key => store.keyInRange key).card
      minerCount := BitVec.ofNat 32
        ((store.adminMinerKeys MC_PTP_MINE).filter fun key => store.keyInRange key).card }

end Store

end Amberchain.Permission
