import Amberchain.Base.LastWins
import Amberchain.Entity.Types
import Amberchain.Permission.UpgradeRoot

/-!
# Applying upgrades

`MultichainNode_ApplyUpgrades` computes the protocol version again after every block that is
connected or disconnected, and after the chain was loaded.
-/

namespace Amberchain.Upgrades

open Permission Entity

def MULTICHAIN_PROTOCOL_VERSION : ℤ := 10010
def MULTICHAIN_MIN_DOWNGRADE_PROTOCOL_VERSION : ℤ := 10008

def upgradeProtocolVersion (entity : EntityRow) : ℤ :=
  toInt32 (entity.smallParam Details.MC_ENT_SPRM_UPGRADE_PROTOCOL_VERSION)

structure UpgradeBlock where
  block : Permission.Block
  upgrades : List EntityRow
  spares : block.SparesUpgrades
  named : ∀ row ∈ upgrades, shortTxid row.key.key ≠ 0

/-- `FindEntityByShortTxID` while no transaction is pending: the entities are those of the
connected blocks. -/
def findEntityByShortTxID (chain : List UpgradeBlock) (upgrade : BitVec 128) : Option EntityRow :=
  (chain.reverse.flatMap UpgradeBlock.upgrades).find? fun row => shortTxid row.key.key = upgrade

/-- `map_sorted`: the upgrade rows by the number of their last ledger row. -/
def mapSorted (permissions : List PermissionDetails) : List PermissionDetails :=
  LastWins.sortByKey PermissionDetails.lastRow
    (permissions.filter fun details => details.key.type = MC_PTP_UPGRADE)

/-- `applied_height`: both heights are signed here. -/
def appliedHeight (entity : EntityRow) (details : PermissionDetails) : ℤ :=
  let applied := toInt32 entity.upgradeStartBlock
  if applied < toInt32 details.blockReceived then toInt32 details.blockReceived else applied

def applyApproval (chain : List UpgradeBlock) (height version : ℤ)
    (details : PermissionDetails) : ℤ :=
  if details.blockFrom < details.blockTo then
    match findEntityByShortTxID chain (details.key.address.setWidth 128) with
    | some entity =>
      if appliedHeight entity details ≤ height
          ∧ MULTICHAIN_MIN_DOWNGRADE_PROTOCOL_VERSION ≤ upgradeProtocolVersion entity then
        upgradeProtocolVersion entity
      else version
    | none => version
  else version

def newProtocolVersion (original : ℤ) (chain : List UpgradeBlock) (height : ℤ)
    (permissions : List PermissionDetails) : ℤ :=
  (mapSorted permissions).foldl (applyApproval chain height) original

/-- The parameters of the chain with its original protocol version.  A node does not start on
a chain that it does not support. -/
structure Config where
  params : ChainParams
  supported : (params.protocolVersion : ℤ) ≤ MULTICHAIN_PROTOCOL_VERSION

/-- The part of a node that decides its protocol version, with the connected blocks, the last
one first. -/
structure Node where
  permissions : Permission.Store
  chain : List UpgradeBlock
  protocolVersion : ℤ
  protocolVersionToUpgrade : ℤ

namespace Config

variable (config : Config)

/-- `GetInt64Param("protocolversion")` -/
def original : ℤ :=
  config.params.protocolVersion

/-- `SetGlobals`: the parameters under another protocol version. -/
def atVersion (version : ℤ) : ChainParams :=
  { config.params with protocolVersion := version.toNat }

end Config

namespace Node

variable (config : Config) (node : Node)

def height : ℤ :=
  node.chain.length - 1

def applyUpgrades : Node :=
  let version := newProtocolVersion config.original node.chain node.height
    (node.permissions.getUpgradeList (config.atVersion node.protocolVersion))
  if version ≠ node.protocolVersion then
    if MULTICHAIN_PROTOCOL_VERSION < version then
      { node with protocolVersionToUpgrade := version }
    else
      { node with protocolVersionToUpgrade := version, protocolVersion := version }
  else { node with protocolVersionToUpgrade := 0 }

/-- `ConnectTip` of a block that is connected: `ConnectBlock` clears the mempool first. -/
def connectTip (block : UpgradeBlock) : Node :=
  applyUpgrades config
    { node with
      permissions := node.permissions.clearMemPool.addBlock
        (config.atVersion node.protocolVersion) block.block
      chain := block :: node.chain }

def disconnectTip : Node :=
  match node.chain with
  | [] => node
  | _ :: older =>
    applyUpgrades config
      { node with
        permissions := node.permissions.rollBack (older.length - 1)
        chain := older }

/-- A restart: the chain parameters are read again, and `LoadBlockIndexDB` rolls the
permissions back to the tip.  Without blocks there is nothing to load. -/
def restart : Node :=
  let loaded : Node :=
    { node with
      permissions := (Store.initializeFrom node.permissions.db node.permissions.ledger).1
      protocolVersion := config.original
      protocolVersionToUpgrade := 0 }
  if node.chain = [] then loaded
  else
    applyUpgrades config
      { loaded with permissions := loaded.permissions.rollBack loaded.height }

def fresh : Node where
  permissions := (Store.initializeFrom .empty .empty).1
  chain := []
  protocolVersion := config.original
  protocolVersionToUpgrade := 0

/-- What a node does.  `ActivateBestChain` connects no block while an upgrade is required,
and heights fit their signed 32 bits.  Between blocks the permission store also runs the
operations of its mempool and verifies forks. -/
inductive Step (node : Node) : Node → Prop where
  | connectTip (block : UpgradeBlock)
      (hversion : node.protocolVersionToUpgrade ≤ node.protocolVersion)
      (hheight : node.height + 1 < 2 ^ 31) : Step node (node.connectTip config block)
  | disconnectTip : Step node (node.disconnectTip config)
  | restart : Step node (node.restart config)
  | between (op : Permission.Op) (hop : node.permissions.Allowed op)
      (hcommit : ∀ miner hash, op ≠ .commit miner hash)
      (hrollBack : ∀ height, op ≠ .rollBack height) (hrestart : op ≠ .restart) :
      Step node
        { node with
          permissions := node.permissions.apply (config.atVersion node.protocolVersion) op }

/-- The nodes that any order of steps reaches. -/
inductive Run : Node → Prop where
  | start : Run (fresh config)
  | step {node next : Node} (hrun : Run node) (hstep : node.Step config next) : Run next

end Node

end Amberchain.Upgrades

/-!
# The version that a chain requires

The loop over the approvals finds the version of the upgrade in force whose approval comes
last in the permission log.
-/

namespace Amberchain.Upgrades

open Permission Entity RowChain

def approvalRow (store : Store) (address : Hash160) : ℕ :=
  newestRow store.ledger.getRow ⟨upgradeEntity, address, MC_PTP_UPGRADE⟩ store.memPoolStart

structure InForce (start : EntityRow → ℤ) (store : Store) (chain : List UpgradeBlock)
    (height : ℤ) (address : Hash160) (entity : EntityRow) : Prop where
  found : findEntityByShortTxID chain (address.setWidth 128) = some entity
  recorded : approvalRow store address ≠ 0
  approved : (store.ledger.getRow (approvalRow store address)).blockFrom <
    (store.ledger.getRow (approvalRow store address)).blockTo
  startBlock : start entity ≤ height
  approvalBlock : ((store.ledger.getRow (approvalRow store address)).blockReceived : ℤ) ≤ height
  allowed : MULTICHAIN_MIN_DOWNGRADE_PROTOCOL_VERSION ≤ upgradeProtocolVersion entity

def Requires (start : EntityRow → ℤ) (original : ℤ) (store : Store) (chain : List UpgradeBlock)
    (height version : ℤ) : Prop :=
  (∃ address entity, InForce start store chain height address entity ∧
      upgradeProtocolVersion entity = version ∧
      ∀ other entity', InForce start store chain height other entity' →
        approvalRow store other ≤ approvalRow store address) ∨
    (∀ address entity, ¬ InForce start store chain height address entity) ∧ version = original

def declaredStart (entity : EntityRow) : ℤ :=
  entity.upgradeStartBlock

def comparedStart (entity : EntityRow) : ℤ :=
  toInt32 entity.upgradeStartBlock

section Requires

variable {start : EntityRow → ℤ} {original height : ℤ} {store other : Store}
  {chain : List UpgradeBlock}

theorem approvalRow_injective {address address' : Hash160} (hrow : approvalRow store address ≠ 0)
    (hsame : approvalRow store address' = approvalRow store address) : address' = address := by
  have hkey : (store.ledger.getRow (approvalRow store address)).key =
      ⟨upgradeEntity, address, MC_PTP_UPGRADE⟩ := key_lastRow hrow
  have hkey' : (store.ledger.getRow (approvalRow store address')).key =
      ⟨upgradeEntity, address', MC_PTP_UPGRADE⟩ := key_lastRow (hsame.symm ▸ hrow)
  rw [hsame, hkey] at hkey'
  exact (congrArg PermKey.address hkey').symm

theorem Requires.unique {version version' : ℤ}
    (hfirst : Requires start original store chain height version)
    (hsecond : Requires start original store chain height version') : version' = version := by
  rcases hfirst with ⟨address, entity, hforce, rfl, hlast⟩ | ⟨hnone, rfl⟩
  · rcases hsecond with ⟨address', entity', hforce', rfl, hlast'⟩ | ⟨hnone, -⟩
    · have hsame := le_antisymm (hlast address' entity' hforce') (hlast' address entity hforce)
      obtain rfl := approvalRow_injective hforce.recorded hsame
      have hfound := hforce.found.symm.trans hforce'.found
      rw [Option.some_inj.mp hfound]
    · exact absurd hforce (hnone address entity)
  rcases hsecond with ⟨address, entity, hforce, -, -⟩ | ⟨-, rfl⟩
  · exact absurd hforce (hnone address entity)
  rfl

theorem approvalRow_alike (halike : Store.AlikeBlocks store other) (address : Hash160) :
    approvalRow other address = approvalRow store address ∧ (approvalRow store address ≠ 0 →
        other.ledger.getRow (approvalRow store address) =
          store.ledger.getRow (approvalRow store address)) := by
  have hsame : approvalRow other address = approvalRow store address := by
    unfold approvalRow
    rw [halike.start]
    exact newestRow_congr _ fun i hpos hlt => (halike.rows i hpos hlt).key
  refine ⟨hsame, fun hrow => ?_⟩
  have hkey : (store.ledger.getRow (approvalRow store address)).key =
      ⟨upgradeEntity, address, MC_PTP_UPGRADE⟩ := key_lastRow hrow
  exact (halike.rows _ (Nat.pos_of_ne_zero hrow) (lastRow_lt hrow)).grant
    (by rw [hkey]; exact (show Store.isGrantType MC_PTP_UPGRADE = true by decide))

theorem InForce.alike (halike : Store.AlikeBlocks store other) {address : Hash160}
    {entity : EntityRow} (hforce : InForce start store chain height address entity) :
    InForce start other chain height address entity := by
  obtain ⟨hsame, hrow⟩ := approvalRow_alike halike address
  have hread := hrow hforce.recorded
  refine ⟨hforce.found, ?_, ?_, hforce.startBlock, ?_, hforce.allowed⟩
  · rw [hsame]
    exact hforce.recorded
  · rw [hsame, hread]
    exact hforce.approved
  rw [hsame, hread]
  exact hforce.approvalBlock

theorem Requires.alike (halike : Store.AlikeBlocks store other) {version : ℤ}
    (hrequires : Requires start original store chain height version) :
    Requires start original other chain height version := by
  rcases hrequires with ⟨address, entity, hforce, hversion, hlast⟩ | ⟨hnone, hversion⟩
  · refine .inl ⟨address, entity, hforce.alike halike, hversion, fun other' entity' hother => ?_⟩
    rw [(approvalRow_alike halike other').1, (approvalRow_alike halike address).1]
    exact hlast other' entity' (hother.alike halike.symm)
  exact .inr ⟨fun address entity hforce =>
    hnone address entity (hforce.alike halike.symm), hversion⟩

/-- Start blocks that fit are compared as they are declared. -/
theorem Requires.declared {version : ℤ}
    (hstarts : ∀ block ∈ chain, ∀ row ∈ block.upgrades, row.upgradeStartBlock < 2 ^ 31)
    (hrequires : Requires comparedStart original store chain height version) :
    Requires declaredStart original store chain height version := by
  have hsame : ∀ {address : Hash160} {entity : EntityRow},
      findEntityByShortTxID chain (address.setWidth 128) = some entity →
        comparedStart entity = declaredStart entity := by
    intro address entity hfound
    have hmem := List.mem_of_find?_eq_some hfound
    obtain ⟨block, hblock, hrow⟩ := List.mem_flatMap.mp hmem
    exact toInt32_of_lt (hstarts block (List.mem_reverse.mp hblock) entity hrow)
  have hforce : ∀ address entity, InForce comparedStart store chain height address entity ↔
      InForce declaredStart store chain height address entity := by
    intro address entity
    constructor
    · intro hforce
      exact ⟨hforce.found, hforce.recorded, hforce.approved, hsame hforce.found ▸ hforce.startBlock,
        hforce.approvalBlock, hforce.allowed⟩
    intro hforce
    exact ⟨hforce.found, hforce.recorded, hforce.approved,
      (hsame hforce.found).symm ▸ hforce.startBlock, hforce.approvalBlock, hforce.allowed⟩
  unfold Requires at hrequires ⊢
  simpa only [hforce] using hrequires

end Requires

def effect (chain : List UpgradeBlock) (height : ℤ) (details : PermissionDetails) : Option ℤ :=
  if details.blockFrom < details.blockTo then
    ((findEntityByShortTxID chain (details.key.address.setWidth 128)).filter fun entity =>
      appliedHeight entity details ≤ height
        ∧ MULTICHAIN_MIN_DOWNGRADE_PROTOCOL_VERSION ≤ upgradeProtocolVersion entity).map
      upgradeProtocolVersion
  else none

theorem applyApproval_eq (chain : List UpgradeBlock) (height version : ℤ)
    (details : PermissionDetails) :
    applyApproval chain height version details = (effect chain height details).getD version := by
  unfold applyApproval effect
  split
  · rcases findEntityByShortTxID chain (details.key.address.setWidth 128) with _ | entity
    · rfl
    dsimp only
    split
    · rename_i hcounts
      simp [Option.filter, hcounts]
    rename_i hcounts
    simp [Option.filter, hcounts]
  rfl

theorem appliedHeight_le_iff (entity : EntityRow) (details : PermissionDetails) (height : ℤ) :
    appliedHeight entity details ≤ height ↔
      comparedStart entity ≤ height ∧ toInt32 details.blockReceived ≤ height := by
  unfold appliedHeight comparedStart
  dsimp only
  split <;> omega

section Computed

variable {config : Config} {params : ChainParams} {store : Store} {chain : List UpgradeBlock}
  {height : ℤ}

/-- A listed approval sets the version exactly when its upgrade is in force. -/
theorem effect_eq_some_iff (hlive : Store.Live store) (hempty : store.memPool = [])
    {details : PermissionDetails} (hmem : details ∈ store.getUpgradeList params)
    (htype : details.key.type = MC_PTP_UPGRADE) {version : ℤ} :
    effect chain height details = some version ↔ ∃ entity,
      InForce comparedStart store chain height details.key.address entity ∧
        upgradeProtocolVersion entity = version := by
  obtain ⟨hentity, hshows⟩ := hlive.shows_of_mem hempty hmem htype
  have hkey : details.key = ⟨upgradeEntity, details.key.address, MC_PTP_UPGRADE⟩ := by
    rw [← hentity, ← htype]
  have hrow : details.lastRow = approvalRow store details.key.address := by
    unfold approvalRow
    rw [← hkey]
    exact hshows.lastRow
  have hne : approvalRow store details.key.address ≠ 0 := hrow ▸ hshows.ne_zero
  have hreceived : toInt32 details.blockReceived = details.blockReceived := by
    have hle := hlive.files.log.received_le _ (Nat.pos_of_ne_zero hne) (lastRow_lt hne)
    have hbound := hlive.files.block_lt
    rw [hshows.blockReceived, hrow]
    exact toInt32_of_lt (by omega)
  unfold effect
  constructor
  · intro heffect
    split at heffect
    · rename_i happroved
      rw [Option.map_eq_some_iff] at heffect
      obtain ⟨entity, hfound, hversion⟩ := heffect
      rw [Option.filter_eq_some_iff, decide_eq_true_iff, appliedHeight_le_iff, hreceived] at hfound
      obtain ⟨hfound, ⟨hstart, hblock⟩, hallowed⟩ := hfound
      rw [hshows.blockFrom, hshows.blockTo, hrow] at happroved
      rw [hshows.blockReceived, hrow] at hblock
      exact ⟨entity, ⟨hfound, hne, happroved, hstart, hblock, hallowed⟩, hversion⟩
    · cases heffect
  rintro ⟨entity, hforce, rfl⟩
  rw [if_pos (by rw [hshows.blockFrom, hshows.blockTo, hrow]; exact hforce.approved),
    Option.map_eq_some_iff]
  refine ⟨entity, ?_, rfl⟩
  rw [Option.filter_eq_some_iff, decide_eq_true_iff, appliedHeight_le_iff, hreceived]
  refine ⟨hforce.found, ⟨hforce.startBlock, ?_⟩, hforce.allowed⟩
  rw [hshows.blockReceived, hrow]
  exact hforce.approvalBlock

theorem InForce.listed (params : ChainParams) (hlive : Store.Live store) (hempty : store.memPool = [])
    (hrooted : store.Rooted) {address : Hash160} {entity : EntityRow}
    (hforce : InForce comparedStart store chain height address entity) :
    ∃ details ∈ store.getUpgradeList params,
      details.key = ⟨upgradeEntity, address, MC_PTP_UPGRADE⟩ := by
  have hstart := Store.memPoolStart_of_empty hempty
  have hlog : ∀ i, 0 < i → i < store.memPoolStart → (store.logRow i).key =
      (store.ledger.getRow i).key := fun i _ hlt => by rw [Store.logRow_of_lt hlt]
  have hpos := Nat.pos_of_ne_zero hforce.recorded
  have hlt : approvalRow store address < store.memPoolStart := lastRow_lt hforce.recorded
  have hkey : (store.ledger.getRow (approvalRow store address)).key =
      ⟨upgradeEntity, address, MC_PTP_UPGRADE⟩ := key_lastRow hforce.recorded
  have hroot := hrooted _ hpos (by rwa [← hstart]) (by rw [hlog _ hpos hlt, hkey])
  have hnewest := hroot.newestRow_ne_zero
  rw [← hstart, newestRow_congr upgradeRootKey hlog] at hnewest
  have haddress : address ≠ 0 := by
    rintro rfl
    have hfound := hforce.found
    have hmem := List.mem_of_find?_eq_some hfound
    obtain ⟨block, -, hrow⟩ := List.mem_flatMap.mp hmem
    have hzero := List.find?_some hfound
    exact block.named entity hrow (of_decide_eq_true hzero)
  exact hlive.mem_getUpgradeList hempty hnewest rfl haddress rfl hforce.recorded

theorem newProtocolVersion_requires (hlive : Store.Live store) (hempty : store.memPool = [])
    (hrooted : store.Rooted) (original : ℤ) : Requires comparedStart original store chain height
      (newProtocolVersion original chain height (store.getUpgradeList params)) := by
  have hfold : newProtocolVersion original chain height (store.getUpgradeList params) =
      (mapSorted (store.getUpgradeList params)).foldl
        (fun version details => (effect chain height details).getD version) original := by
    unfold newProtocolVersion
    congr 1
    funext version details
    exact applyApproval_eq chain height version details
  have hlisted : ∀ {details}, details ∈ mapSorted (store.getUpgradeList params) →
      details ∈ store.getUpgradeList params ∧ details.key.type = MC_PTP_UPGRADE := by
    intro details hmem
    obtain ⟨hmem, htype⟩ := List.mem_filter.mp (LastWins.mem_of_mem_sortByKey hmem)
    exact ⟨hmem, of_decide_eq_true htype⟩
  have hrow : ∀ {details}, details ∈ mapSorted (store.getUpgradeList params) →
      details.lastRow = approvalRow store details.key.address ∧ details.lastRow ≠ 0 := by
    intro details hmem
    obtain ⟨hmem, htype⟩ := hlisted hmem
    obtain ⟨hentity, hshows⟩ := hlive.shows_of_mem hempty hmem htype
    refine ⟨?_, hshows.ne_zero⟩
    unfold approvalRow
    rw [← hentity, ← htype]
    exact hshows.lastRow
  -- an upgrade in force has its own row in the map
  have hmapped : ∀ {address entity},
      InForce comparedStart store chain height address entity →
        ∃ details ∈ mapSorted (store.getUpgradeList params), details.key.address = address := by
    intro address entity hforce
    obtain ⟨details, hmem, hkey⟩ := hforce.listed params hlive hempty hrooted
    have htype : details.key.type = MC_PTP_UPGRADE := by rw [hkey]
    have hdetails := hlive.shows_of_mem hempty hmem htype
    have hfiltered : details ∈ (store.getUpgradeList params).filter
        fun details => details.key.type = MC_PTP_UPGRADE :=
      List.mem_filter.mpr ⟨hmem, decide_eq_true htype⟩
    obtain ⟨kept, hkept, hsame⟩ : ∃ kept ∈ mapSorted (store.getUpgradeList params),
        kept.lastRow = details.lastRow := LastWins.exists_mem_sortByKey hfiltered
    refine ⟨kept, hkept, ?_⟩
    obtain ⟨hkeptRow, -⟩ := hrow hkept
    have hlast : details.lastRow = approvalRow store address := by
      rw [hdetails.2.lastRow, hkey]
      rfl
    exact approvalRow_injective hforce.recorded (by rw [← hkeptRow, hsame, hlast])
  have hsorted : (mapSorted (store.getUpgradeList params)).Pairwise
      (LastWins.Ordered PermissionDetails.lastRow) := LastWins.sorted_sortByKey _
  rw [hfold]
  rcases @LastWins.foldl_getD_of_sorted _ _ _ _ _ (effect chain height) _ hsorted original with
    ⟨details, hmem, heffect, hgreatest⟩ | ⟨hnone, hstart⟩
  · obtain ⟨hlist, htype⟩ := hlisted hmem
    obtain ⟨entity, hforce, hversion⟩ := (effect_eq_some_iff hlive hempty hlist htype).mp heffect
    refine .inl ⟨details.key.address, entity, hforce, hversion, fun other entity' hother => ?_⟩
    obtain ⟨details', hmem', rfl⟩ := hmapped hother
    obtain ⟨hlist', htype'⟩ := hlisted hmem'
    have hsome := (effect_eq_some_iff hlive hempty hlist' htype').mpr ⟨entity', hother, rfl⟩
    rw [← (hrow hmem).1, ← (hrow hmem').1]
    exact hgreatest details' hmem' (by rw [hsome]; rfl)
  refine .inr ⟨fun address entity hforce => ?_, hstart⟩
  obtain ⟨details, hmem, rfl⟩ := hmapped hforce
  obtain ⟨hlist, htype⟩ := hlisted hmem
  have hsome := (effect_eq_some_iff hlive hempty hlist htype).mpr ⟨entity, hforce, rfl⟩
  rw [hnone details hmem] at hsome
  cases hsome

end Computed

end Amberchain.Upgrades
