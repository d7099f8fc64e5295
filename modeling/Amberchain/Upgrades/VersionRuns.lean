import Amberchain.Upgrades.RequiredVersion

/-!
# The protocol version follows the chain

Nodes that end with the same chain require the same version, whatever they have connected,
disconnected and restarted before.
-/

namespace Amberchain.Upgrades

open Permission Entity RowChain

variable {config : Config}

namespace Config

variable (config : Config)

def versionOf (chain : List UpgradeBlock) (store : Store) : ℤ :=
  newProtocolVersion config.original chain (chain.length - 1) (store.getUpgradeList config.params)

/-- The permissions after the blocks were connected one after the other, each under the
version that the chain before it requires. -/
def replay : List UpgradeBlock → Store
  | [] => (Node.fresh config).permissions
  | block :: older =>
    (replay older).addBlock (config.atVersion (config.versionOf older (replay older))) block.block

def required (chain : List UpgradeBlock) : ℤ :=
  config.versionOf chain (config.replay chain)

end Config

/-- The store holds a chain and nothing else. -/
structure Replayed (store : Store) (length : ℕ) : Prop where
  live : Store.Live store
  memPool : store.memPool = []
  rooted : store.Rooted
  block : store.block = length - 1

theorem replay_replayed (config : Config) : ∀ {chain : List UpgradeBlock},
    chain.length ≤ 2 ^ 31 → Replayed (config.replay chain) chain.length
  | [], _ => by
    have hrest : Store.AtRest (config.replay []) := Store.newStore_atRest
    refine ⟨hrest.live, hrest.memPool, fun i hpos hlt => ?_, rfl⟩
    have hrow : (config.replay []).row = 1 := rfl
    omega
  | block :: older, hlength => by
    rw [List.length_cons] at hlength ⊢
    have hold := replay_replayed config (show older.length ≤ 2 ^ 31 by omega)
    have hbound : (config.replay older).block + 1 < 2 ^ 31 := by
      rw [hold.block]
      omega
    have hgrown := (Store.GrownFrom.refl (hold.live.atRest hold.memPool)).addBlock
      (config.atVersion (config.versionOf older (config.replay older))) hbound block.block
    refine ⟨hgrown.1.atRest.live, hgrown.1.atRest.memPool,
      hold.live.addBlock_rooted hold.rooted hbound block.spares, ?_⟩
    show (Store.addBlock _ (config.replay older) block.block).block = _
    rw [hgrown.2, hold.block]
    omega

structure Follows (node : Node) (required : ℤ) : Prop where
  supported : required ≤ MULTICHAIN_PROTOCOL_VERSION →
    node.protocolVersion = required ∧
      (node.protocolVersionToUpgrade = 0 ∨ node.protocolVersionToUpgrade = required)
  unsupported : MULTICHAIN_PROTOCOL_VERSION < required →
    node.protocolVersionToUpgrade = required
  version_le : node.protocolVersion ≤ MULTICHAIN_PROTOCOL_VERSION

structure FollowsChain (config : Config) (node : Node) : Prop where
  length_le : node.chain.length ≤ 2 ^ 31
  alike : Store.AlikeBlocks (config.replay node.chain) node.permissions
  follows : Follows node (config.required node.chain)

theorem newProtocolVersion_eq {chain : List UpgradeBlock} (hlength : chain.length ≤ 2 ^ 31)
    {store : Store} (halike : Store.AlikeBlocks (config.replay chain) store)
    (hempty : store.memPool = []) (params : ChainParams) :
    newProtocolVersion config.original chain (chain.length - 1) (store.getUpgradeList params) =
      config.required chain := by
  have hreplayed := replay_replayed config hlength
  have hlogs := (halike.alike hreplayed.memPool hempty).toAlikeLogs
  have hrequires : Requires comparedStart config.original (config.replay chain) chain
      (chain.length - 1) (config.required chain) :=
    newProtocolVersion_requires hreplayed.live hreplayed.memPool hreplayed.rooted config.original
  have hrequires' : Requires comparedStart config.original store chain (chain.length - 1)
      (newProtocolVersion config.original chain (chain.length - 1) (store.getUpgradeList params)) :=
    newProtocolVersion_requires halike.live' hempty (hlogs.rooted hreplayed.rooted) config.original
  exact (hrequires.alike halike).unique hrequires'

@[simp]
theorem Node.applyUpgrades_permissions (config : Config) (node : Node) :
    (node.applyUpgrades config).permissions = node.permissions := by
  unfold Node.applyUpgrades
  dsimp only
  split_ifs <;> rfl

@[simp]
theorem Node.applyUpgrades_chain (config : Config) (node : Node) :
    (node.applyUpgrades config).chain = node.chain := by
  unfold Node.applyUpgrades
  dsimp only
  split_ifs <;> rfl

theorem applyUpgrades_followsChain {node : Node} (hlength : node.chain.length ≤ 2 ^ 31)
    (halike : Store.AlikeBlocks (config.replay node.chain) node.permissions)
    (hempty : node.permissions.memPool = [])
    (hversion : node.protocolVersion ≤ MULTICHAIN_PROTOCOL_VERSION) :
    FollowsChain config (node.applyUpgrades config) := by
  have hnew := newProtocolVersion_eq hlength halike hempty (config.atVersion node.protocolVersion)
  have hfollows : Follows (node.applyUpgrades config) (config.required node.chain) := by
    unfold Node.applyUpgrades Node.height
    dsimp only
    rw [hnew]
    split_ifs with hother hunsupported
    · exact ⟨fun hle => absurd hunsupported (not_lt.mpr hle), fun _ => rfl, hversion⟩
    · exact ⟨fun _ => ⟨rfl, .inr rfl⟩, fun hlt => absurd hlt hunsupported, not_lt.mp hunsupported⟩
    have hcurrent := not_ne_iff.mp hother
    exact ⟨fun _ => ⟨hcurrent.symm, .inl rfl⟩, fun hlt => by omega, hversion⟩
  exact ⟨by simpa using hlength, by simpa using halike, by simpa using hfollows⟩

theorem follows_original {node : Node} (hversion : node.protocolVersion = config.original)
    (htoUpgrade : node.protocolVersionToUpgrade = 0) : Follows node (config.required []) := by
  have hsupported : config.original ≤ MULTICHAIN_PROTOCOL_VERSION := config.supported
  exact ⟨fun _ => ⟨hversion, .inl htoUpgrade⟩, fun hlt => absurd hlt (not_lt.mpr hsupported),
    hversion ▸ hsupported⟩

section Steps

variable {node : Node} (hinv : FollowsChain config node)

include hinv

theorem FollowsChain.height_eq : node.permissions.block = node.height := by
  rw [hinv.alike.block, (replay_replayed config hinv.length_le).block]
  rfl

theorem FollowsChain.connectTip (block : UpgradeBlock)
    (hversion : node.protocolVersionToUpgrade ≤ node.protocolVersion)
    (hheight : node.height + 1 < 2 ^ 31) : FollowsChain config (node.connectTip config block) := by
  have hreplayed := replay_replayed config hinv.length_le
  have hclear : Store.SameBlocks node.permissions node.permissions.clearMemPool :=
    @Store.Live.apply_sameBlocks config.params node.permissions hinv.alike.live' .clearMemPool
      trivial (fun _ _ hop => nomatch hop) fun _ hop => nomatch hop
  have hcleared := hinv.alike.live'.clearMemPool_atRest
  have halike := hinv.alike.trans (.of_sameBlocks hinv.alike.live' hcleared.live hclear)
  -- the block is checked under the version that the chain requires
  have hcurrent : node.protocolVersion = config.required node.chain := by
    by_cases hsupported : config.required node.chain ≤ MULTICHAIN_PROTOCOL_VERSION
    · exact (hinv.follows.supported hsupported).1
    have hrequired := hinv.follows.unsupported (not_le.mp hsupported)
    have hle := hinv.follows.version_le
    omega
  have hbound : (config.replay node.chain).block + 1 < 2 ^ 31 := by
    rw [hreplayed.block]
    exact hheight
  have hnext := halike.addBlock (config.atVersion node.protocolVersion) hreplayed.memPool
    hcleared.memPool hbound block.block
  have hgrown := (Store.GrownFrom.refl hcleared).addBlock (config.atVersion node.protocolVersion)
    (by rw [halike.block]; exact hbound) block.block
  refine applyUpgrades_followsChain ?_ ?_ hgrown.1.atRest.memPool hinv.follows.version_le
  · rw [List.length_cons]
    unfold Node.height at hheight
    omega
  show Store.AlikeBlocks ((config.replay node.chain).addBlock
    (config.atVersion (config.required node.chain)) block.block) _
  rw [← hcurrent]
  exact hnext

theorem FollowsChain.disconnectTip : FollowsChain config (node.disconnectTip config) := by
  unfold Node.disconnectTip
  split
  · exact hinv
  rename_i block older hchain
  have hlength := hinv.length_le
  rw [hchain, List.length_cons] at hlength
  have holder := replay_replayed config (show older.length ≤ 2 ^ 31 by omega)
  have halike := hinv.alike
  rw [hchain] at halike
  have hbound : (config.replay older).block + 1 < 2 ^ 31 := by
    rw [holder.block]
    omega
  have hcontinues := (holder.live.continues_addBlock
    (config.atVersion (config.required older)) hbound block.block).trans halike
  have hrolled := hcontinues.rollBack
  rw [holder.block] at hrolled
  obtain ⟨cut, hspec⟩ := hinv.alike.live'.rollBack_spec
    (show -1 ≤ (older.length : ℤ) - 1 by omega) (by
      rw [hinv.height_eq, Node.height, hchain, List.length_cons]
      omega)
  exact applyUpgrades_followsChain (show older.length ≤ 2 ^ 31 by omega) hrolled
    hspec.atRest.memPool hinv.follows.version_le

theorem FollowsChain.restart : FollowsChain config (node.restart config) := by
  have hopened : Store.SameBlocks node.permissions
      (Store.initializeFrom node.permissions.db node.permissions.ledger).1 :=
    @Store.Live.apply_sameBlocks config.params node.permissions hinv.alike.live' .restart
      trivial (fun _ _ hop => nomatch hop) fun _ hop => nomatch hop
  have hlive : Store.Live (Store.initializeFrom node.permissions.db node.permissions.ledger).1 :=
    hinv.alike.live'.apply config.params (show node.permissions.Allowed .restart from trivial)
  have halike := hinv.alike.trans (.of_sameBlocks hinv.alike.live' hlive hopened)
  have hreplayed := replay_replayed config hinv.length_le
  unfold Node.restart
  split
  · rename_i hnone
    refine ⟨hinv.length_le, halike, ?_⟩
    rw [hnone]
    exact follows_original rfl rfl
  have hrolled := halike.continues.rollBack
  rw [hreplayed.block] at hrolled
  obtain ⟨cut, hspec⟩ := hlive.rollBack_spec
    (show -1 ≤ (node.chain.length : ℤ) - 1 by omega) (by
      rw [halike.block, hreplayed.block])
  exact applyUpgrades_followsChain hinv.length_le hrolled hspec.atRest.memPool config.supported

theorem FollowsChain.between {op : Permission.Op} (hop : node.permissions.Allowed op)
    (hcommit : ∀ miner hash, op ≠ .commit miner hash)
    (hrollBack : ∀ height, op ≠ .rollBack height) : FollowsChain config { node with
        permissions := node.permissions.apply (config.atVersion node.protocolVersion) op } :=
  have hsame : Store.SameBlocks node.permissions
      (node.permissions.apply (config.atVersion node.protocolVersion) op) :=
    hinv.alike.live'.apply_sameBlocks hop hcommit hrollBack
  have hlive := hinv.alike.live'.apply (config.atVersion node.protocolVersion) hop
  ⟨hinv.length_le, hinv.alike.trans (.of_sameBlocks hinv.alike.live' hlive hsame),
    ⟨hinv.follows.supported, hinv.follows.unsupported, hinv.follows.version_le⟩⟩

end Steps

theorem Node.Run.followsChain {node : Node} (hrun : Node.Run config node) :
    FollowsChain config node := by
  induction hrun with
  | start =>
    have hlength : ([] : List UpgradeBlock).length ≤ 2 ^ 31 := by decide
    have hreplayed := replay_replayed config hlength
    exact ⟨hlength, .refl hreplayed.live, follows_original rfl rfl⟩
  | step hrun hstep ih =>
    cases hstep with
    | connectTip block hversion hheight => exact ih.connectTip block hversion hheight
    | disconnectTip => exact ih.disconnectTip
    | restart => exact ih.restart
    | between op hop hcommit hrollBack hrestart => exact ih.between hop hcommit hrollBack

def ChainRequires (config : Config) (node : Node) (version : ℤ) : Prop :=
  Requires declaredStart config.original node.permissions node.chain node.height version

def earlyConfig : Config where
  params := { ChainParams.defaults with protocolVersion := 10008 }
  supported := by decide

def upgradeTo (txid : Hash256) (version : Bytes) : EntityRow :=
  { EntityRow.zero with
    key := txidKey txid
    entityType := MC_ENT_TYPE_UPGRADE
    script := Details.specialParam Details.MC_ENT_SPRM_UPGRADE_PROTOCOL_VERSION version }

def approve (txid : Hash256) : Call :=
  .approve {
    upgrade := shortTxid txid
    approval := 1
    admin := some Store.firstMiner
    blockFrom := 0
    timestamp := 1
    flags := 0
    updateMempool := true
    offset := 1 }

def approvalBlock (txid : Hash256) (version : Bytes) (hash : Hash256)
    (hnamed : shortTxid txid ≠ 0) : UpgradeBlock where
  block := ⟨[approve txid], Store.firstMiner, hash⟩
  upgrades := [upgradeTo txid version]
  spares := by
    intro grant hmem
    cases List.mem_singleton.mp hmem
  named := by
    intro row hmem
    rw [List.mem_singleton.mp hmem]
    exact hnamed

def firstUpgrade : UpgradeBlock :=
  approvalBlock (1 <<< 128) [0x19, 0x27] 1 (by decide)

/-- An upgrade to version 10011, which the software does not support. -/
def secondUpgrade : UpgradeBlock :=
  approvalBlock (2 <<< 128) [0x1b, 0x27] 2 (by decide)

def upgraded : Node :=
  ((Node.fresh earlyConfig).connectTip earlyConfig firstUpgrade).connectTip earlyConfig
    secondUpgrade

theorem connected_run : Node.Run earlyConfig upgraded := by
  have hfirst : Node.Step earlyConfig (Node.fresh earlyConfig)
      ((Node.fresh earlyConfig).connectTip earlyConfig firstUpgrade) :=
    .connectTip firstUpgrade (by decide) (by decide)
  have hsecond : Node.Step earlyConfig
      ((Node.fresh earlyConfig).connectTip earlyConfig firstUpgrade) upgraded :=
    .connectTip secondUpgrade (by decide +kernel) (by decide +kernel)
  exact .step (.step .start hfirst) hsecond

theorem upgraded_chain : upgraded.chain = [secondUpgrade, firstUpgrade] := by
  unfold upgraded Node.connectTip
  simp [Node.fresh]

theorem Node.restart_chain (config : Config) (node : Node) :
    (node.restart config).chain = node.chain := by
  unfold Node.restart
  split
  · rfl
  simp

/-- Nodes with the same chain require the same version, the one of the upgrade in force whose
approval comes last.  A version that the software supports is the one they run; before another
one they stop.  Start blocks fit the signed heights they are compared with. -/
theorem Node.version_follows_chain (config : Config) {chain : List UpgradeBlock}
    (hstarts : ∀ block ∈ chain, ∀ row ∈ block.upgrades, row.upgradeStartBlock < 2 ^ 31) :
    ∃ version, ∀ node, Node.Run config node → node.chain = chain →
      ChainRequires config node version ∧
        (version ≤ MULTICHAIN_PROTOCOL_VERSION → node.protocolVersion = version ∧
          (node.protocolVersionToUpgrade = 0 ∨ node.protocolVersionToUpgrade = version)) ∧
        (MULTICHAIN_PROTOCOL_VERSION < version → node.protocolVersionToUpgrade = version ∧
          node.protocolVersion ≤ MULTICHAIN_PROTOCOL_VERSION) := by
  refine ⟨config.required chain, fun node hrun hchain => ?_⟩
  subst hchain
  have hinv := hrun.followsChain
  have hreplayed := replay_replayed config hinv.length_le
  have hrequires : Requires comparedStart config.original (config.replay node.chain) node.chain
      (node.chain.length - 1) (config.required node.chain) :=
    newProtocolVersion_requires hreplayed.live hreplayed.memPool hreplayed.rooted config.original
  exact ⟨(hrequires.alike hinv.alike).declared hstarts, hinv.follows.supported,
    fun hlt => ⟨hinv.follows.unsupported hlt, hinv.follows.version_le⟩⟩


theorem upgraded_version_follows_chain :
    (Node.Run earlyConfig upgraded ∧ upgraded.chain = [secondUpgrade, firstUpgrade]) ∧
      ∃ version, ∀ node, Node.Run earlyConfig node → node.chain = [secondUpgrade, firstUpgrade] →
        ChainRequires earlyConfig node version ∧
          (version ≤ MULTICHAIN_PROTOCOL_VERSION → node.protocolVersion = version ∧
            (node.protocolVersionToUpgrade = 0 ∨ node.protocolVersionToUpgrade = version)) ∧
          (MULTICHAIN_PROTOCOL_VERSION < version → node.protocolVersionToUpgrade = version ∧
            node.protocolVersion ≤ MULTICHAIN_PROTOCOL_VERSION) :=
  ⟨⟨connected_run, upgraded_chain⟩, Node.version_follows_chain earlyConfig (by decide)⟩

/-- Permissions follow the active chain: however two nodes came to one chain, by blocks connected
and disconnected, restarts and grants that were never mined, the same mempool shows the same
permissions. -/
theorem Node.permission_follows_chain (config : Config) {node other : Node}
    (hrun : Node.Run config node) (hother : Node.Run config other)
    (hchain : other.chain = node.chain)
    (hpool : other.permissions.memPool = node.permissions.memPool) {key : PermKey}
    (hgrant : Store.isGrantType key.type = true) :
    other.permissions.permission key = node.permissions.permission key ∧
      (other.permissions.permissionRow key true).thisRow
        = (node.permissions.permissionRow key true).thisRow ∧
      (other.permissions.permissionRow key true).blockFrom
        = (node.permissions.permissionRow key true).blockFrom ∧
      (other.permissions.permissionRow key true).blockTo
        = (node.permissions.permissionRow key true).blockTo := by
  have hreplayed := hother.followsChain.alike
  rw [hchain] at hreplayed
  have halike : Store.AlikeLogs node.permissions other.permissions :=
    ⟨hrun.followsChain.alike.symm.trans hreplayed, hpool⟩
  exact ⟨halike.permission hgrant, halike.permissionRow hgrant⟩

theorem restarted_permission :
    (upgraded.restart earlyConfig).permissions.permission ⟨0, Store.firstMiner, MC_PTP_MINE⟩
      = upgraded.permissions.permission ⟨0, Store.firstMiner, MC_PTP_MINE⟩ :=
  (Node.permission_follows_chain earlyConfig connected_run (.step connected_run .restart)
    (upgraded.restart_chain earlyConfig) (by decide +kernel) (by decide)).1

/-- The version that is not supported leaves the one before it in place, which a restart does
not find again. -/
theorem restarted_version_differs :
    ¬ ∀ (config : Config) (node other : Node), Node.Run config node → Node.Run config other →
      other.chain = node.chain → other.protocolVersion = node.protocolVersion ∧
        other.protocolVersionToUpgrade = node.protocolVersionToUpgrade := by
  intro hdetermined
  have hversions := hdetermined earlyConfig upgraded (upgraded.restart earlyConfig) connected_run
    (.step connected_run .restart) (upgraded.restart_chain earlyConfig)
  have hdiffer : (upgraded.restart earlyConfig).protocolVersion ≠ upgraded.protocolVersion := by
    decide +kernel
  exact hdiffer hversions.1

end Amberchain.Upgrades
