import Amberchain.Transaction.CheckPoint
import Amberchain.Validation.Checks

/-!
# The blocks of the stores

The permissions, the assets and the coins each say which block they belong to.  The checks of a
block leave all three alone: only the commits move the permissions and the assets on.
-/

namespace Amberchain.Entity.AssetDB

variable (params : ChainParams) (assets : AssetDB)

theorem insertKeys_block (row : EntityRow) (updateMempool : Bool) :
    (assets.insertKeys params row updateMempool).1.block = assets.block := by
  rw [insertKeys]
  split
  · rfl
  split <;> rfl

theorem insertAssetFollowOn_block (issue : Issue) (quantity : BitVec 64) (txid : Hash256) :
    (assets.insertAssetFollowOn params issue quantity txid).1.block = assets.block := by
  rw [insertAssetFollowOn]
  split
  · rfl
  split
  · rfl
  dsimp only
  split
  · rfl
  split <;> rfl

theorem insertEntity_block (issue : Issue) (entityType : ℕ) :
    (assets.insertEntity params issue entityType).1.block = assets.block := by
  have hkeys := assets.insertKeys_block params (assets.entityRow issue entityType)
    issue.updateMempool
  rw [insertEntity]
  generalize (if params.upgrades ∧ entityType = MC_ENT_TYPE_UPGRADE then
    upgradeScript issue.script else .ok 0 : Except McError ℕ) = checked
  cases checked with
  | error err => rfl
  | ok startBlock =>
    dsimp only
    split <;> rename_i hinserted <;> rw [hinserted] at hkeys <;> exact hkeys

theorem clearMemPool_block : assets.clearMemPool.block = assets.block := by
  rw [clearMemPool]
  split <;> rfl

theorem commitRow_block (loop : CommitLoop) (index : ℕ) :
    (commitRow params loop index).assets.block = loop.assets.block := by
  rw [commitRow]
  split
  · rfl
  split
  · rw [commitTxid_eq]
    split
    · rfl
    split
    · rfl
    · split <;> rfl
  rfl

theorem commitLoop_block : (assets.commitLoop params).assets.block = assets.block := by
  have hloop : ∀ (indices : List ℕ) (loop : CommitLoop),
      (indices.foldl (commitRow params) loop).assets.block = loop.assets.block := by
    intro indices
    induction indices with
    | nil => exact fun _ => rfl
    | cons index indices ih =>
      intro loop
      rw [List.foldl_cons, ih, commitRow_block]
  exact hloop _ _

theorem rollBack_block {block : ℤ} (hblock : assets.block = block) :
    (assets.rollBack params block).1.block = block := by
  rw [rollBack]
  dsimp only
  split
  · rfl
  exact assets.clearMemPool_block.trans hblock

theorem commit_block : (assets.commit params).1.block
      = if (assets.commit params).2.isNone then assets.block + 1 else assets.block := by
  have hloop := assets.commitLoop_block params
  rw [commit]
  split
  · exact (rollBack_block params _ rfl).trans hloop
  exact congrArg (· + 1) hloop

end Amberchain.Entity.AssetDB

namespace Amberchain.Permission.Store

variable (params : ChainParams) (store : Store)

theorem updateCounts_block : store.updateCounts.block = store.block := by
  rw [updateCounts]
  split
  · rfl
  split <;> rfl

theorem clearMemPool_block : store.clearMemPool.block = store.block := by
  rw [clearMemPool]
  split
  · exact updateCounts_block _
  rfl

theorem restoreMemPool_block : store.restoreMemPool.block = store.block :=
  store.clearMemPool_block

theorem writeAll_block (writes : List DiskWrite) : (store.writeAll writes).block = store.block := by
  induction writes generalizing store with
  | nil => rfl
  | cons write writes ih =>
    refine (ih _).trans ?_
    cases write <;> rfl

theorem commit_block (miner : Hash160) (hash : Hash256) :
    (store.commit params miner hash).block = store.block + 1 := by
  obtain ⟨blockMiners, hcommit⟩ := store.commit_eq params miner hash
  have hfiles : (store.commitFiles miner hash).block = store.block := writeAll_block _ _
  have hcounted : (store.commitFiles miner hash).countCommitted.block = store.block := hfiles
  rw [hcommit]
  exact congrArg (· + 1) ((writeAll_block _ _).trans hcounted)

theorem rollBack_block (block : ℤ) : (store.rollBack block).block = block := by
  exact updateCounts_block _

end Amberchain.Permission.Store

namespace Amberchain.Transaction

open Entity Failing Permission

variable {env : TxEnv} {tx : Tx} {inputs : Inputs} {offset : ℤ} {seedNode : Option Hash160}
  {accept : Bool} {permissionsBlock assetsBlock : ℤ}

structure AtBlocks (permissionsBlock assetsBlock : ℤ) (state : TxState) : Prop where
  permissions : state.permissions.block = permissionsBlock
  assets : state.assets.block = assetsBlock

theorem grantInvariant_block (params : ChainParams) (block : ℤ) :
    GrantInvariant params fun store => store.block = block where
  grant := fun _ grant hstore =>
    Store.setPermission_induct params grant (fun _ _ _ h happ => happ.block_eq.trans h) hstore
  approve := fun _ approval hstore =>
    Store.setApproval_induct params approval (fun _ _ _ h happ => happ.block_eq.trans h) hstore

theorem atBlocks_outputInvariant (params : ChainParams) :
    OutputInvariant params (AtBlocks permissionsBlock assetsBlock) where
  others := fun _ _ hpermissions hassets hstate =>
    ⟨(congrArg Store.block hpermissions).trans hstate.permissions,
      (congrArg AssetDB.block hassets).trans hstate.assets⟩
  grant := fun state grant hstate =>
    ⟨(grantInvariant_block params _).grant state.permissions grant hstate.permissions,
      hstate.assets⟩
  approve := fun state approval hstate =>
    ⟨(grantInvariant_block params _).approve state.permissions approval hstate.permissions,
      hstate.assets⟩

section Entities

theorem keeps_blocks {change : TxState → TxState}
    (hpermissions : ∀ state, (change state).permissions.block = state.permissions.block)
    (hassets : ∀ state, (change state).assets = state.assets) :
    Keeps (AtBlocks permissionsBlock assetsBlock) (modify change : TxM Unit) :=
  Keeps.modify fun state hstate => ⟨(hpermissions state).trans hstate.permissions,
    (congrArg AssetDB.block (hassets state)).trans hstate.assets⟩

theorem applyGrants_keepsBlocks (grants : List Grant) :
    Keeps (AtBlocks permissionsBlock assetsBlock) (applyGrants env.params grants) :=
  fun state hstate => ⟨grantAll_keeps (grantInvariant_block env.params _) grants state.permissions
    hstate.permissions, hstate.assets⟩

theorem insertIssue_block (plan : IssuePlan) (assets : AssetDB) :
    (insertIssue env tx offset plan accept assets).1.block = assets.block := by
  rw [insertIssue]
  split
  · exact assets.insertKeys_block _ _ _
  exact assets.insertAssetFollowOn_block _ _ _ _

theorem acceptAssetGenesis_keepsBlocks : Keeps (AtBlocks permissionsBlock assetsBlock)
      (acceptAssetGenesis env tx inputs offset accept) := by
  have hgrant : ∀ plan, Keeps (AtBlocks permissionsBlock assetsBlock)
      (grantIssue env tx offset plan accept) := by
    intro plan
    apply Keeps.bind
    · exact keeps_blocks (fun _ => rfl) fun _ => rfl
    intro _
    apply Keeps.bind (applyGrants_keepsBlocks _)
    intro _
    apply Keeps.bind
    · exact keeps_onlyIf fun _ => keeps_blocks (fun _ => rfl) fun _ => rfl
    intro _
    exact keeps_rejectIf
  have hrecord : ∀ plan, Keeps (AtBlocks permissionsBlock assetsBlock)
      (recordIssue env tx offset plan accept) := by
    intro plan
    apply Keeps.bind
    · exact fun state hstate => ⟨hstate.permissions,
        (insertIssue_block plan state.assets).trans hstate.assets⟩
    intro _
    apply keeps_rejectIf_then
    apply keeps_rejectIf_then
    exact Keeps.bind Keeps.get fun _ => keeps_rejectIf
  apply Keeps.bind Keeps.get
  intro state
  split
  · exact Keeps.throw _
  · exact Keeps.pure ()
  apply Keeps.bind
  · exact keeps_blocks (fun _ => rfl) fun _ => rfl
  intro _
  apply keeps_rejectIf_then
  exact Keeps.bind (keeps_onlyIf fun _ => hgrant _) fun _ => hrecord _

theorem insertNewEntity_blocks (entityType : ℕ) (details : Bytes)
    (openers : List (Hash160 × BitVec 32)) (assets : AssetDB) (store : Store) :
    (insertNewEntity env tx offset entityType details openers accept assets store).1.block
        = assets.block
      ∧ (insertNewEntity env tx offset entityType details openers accept assets store).2.1.block
        = store.block := by
  refine ⟨?_, insertNewEntity_keeps (grantInvariant_block env.params _) _ _ _ _ _ rfl⟩
  have hentity := fun issue => assets.insertEntity_block env.params issue entityType
  rw [insertNewEntity]
  split
  · rename_i hinserted
    exact (congrArg (fun result => result.1.block) hinserted).symm.trans (hentity _)
  rename_i hinserted
  have hblock := (congrArg (fun result => result.1.block) hinserted).symm.trans (hentity _)
  split <;> exact hblock

theorem acceptNewEntity_keepsBlocks (output : ℕ) : Keeps (AtBlocks permissionsBlock assetsBlock)
      (acceptNewEntity env tx inputs offset accept output) := by
  apply Keeps.bind
  · exact keeps_blocks (fun _ => rfl) fun _ => rfl
  intro _
  apply Keeps.bind Keeps.get
  intro state
  apply keeps_rejectIf_then
  apply Keeps.bind (applyGrants_keepsBlocks _)
  intro _
  apply keeps_rejectIf_then
  apply Keeps.bind
  · intro state hstate
    obtain ⟨hassets, hpermissions⟩ := @insertNewEntity_blocks env tx offset accept _ _ _
      state.assets state.permissions
    exact ⟨hpermissions.trans hstate.permissions, hassets.trans hstate.assets⟩
  intro _
  apply keeps_rejectIf_then
  exact Keeps.bind Keeps.get fun _ => keeps_rejectIf

end Entities

/-- A transaction leaves both stores at their blocks, whether it is accepted or not. -/
theorem acceptMultiChainTransaction_blocks (chain : Chain) :
    (acceptMultiChainTransaction env tx offset chain accept).chain.permissions.block
        = chain.permissions.block
      ∧ (acceptMultiChainTransaction env tx offset chain accept).chain.assets.block
        = chain.assets.block := by
  have hprogram : ∀ inputs, Keeps (AtBlocks chain.permissions.block chain.assets.block)
      (processTransaction env tx inputs offset chain.seedNode accept) := by
    intro inputs
    apply Keeps.bind (processOutputs_keeps (atBlocks_outputInvariant env.params))
    intro _
    apply Keeps.bind acceptAssetGenesis_keepsBlocks
    intro _
    apply Keeps.bind Keeps.get
    intro state
    split
    · exact Keeps.pure ()
    · exact acceptNewEntity_keepsBlocks _
  rw [acceptMultiChainTransaction]
  split
  · exact ⟨rfl, rfl⟩
  split
  · exact ⟨rfl, rfl⟩
  rename_i inputs _
  have hfinal := (hprogram inputs).finalState
    (show AtBlocks chain.permissions.block chain.assets.block (checkPointed inputs chain)
      from ⟨rfl, rfl⟩)
  refine ⟨?_, hfinal.assets⟩
  dsimp only [conclude]
  split
  · exact hfinal.permissions
  exact hfinal.permissions

end Amberchain.Transaction

namespace Amberchain.Validation

open Failing Interpreter Permission Storage Transaction

variable {env : BlockEnv}

/-- The functions of protocols without streams leave the blocks of both stores alone, as
`AcceptMultiChainTransaction` does. -/
structure KeepsStoreBlocks (env : BlockEnv) : Prop where
  permissions : ∀ tx chain next, env.acceptPermissions tx chain = .ok next →
    next.permissions.block = chain.permissions.block ∧ next.assets.block = chain.assets.block
  assets : ∀ tx offset coinsOf chain next, env.acceptAssets tx offset coinsOf chain = .ok next →
    next.permissions.block = chain.permissions.block ∧ next.assets.block = chain.assets.block

structure StoresAt (permissionsBlock assetsBlock : ℤ) (bestBlock : Hash256) (world : World) :
    Prop where
  permissions : world.chain.permissions.block = permissionsBlock
  assets : world.chain.assets.block = assetsBlock
  bestBlock : world.bestBlock = bestBlock

variable {permissionsBlock assetsBlock : ℤ} {bestBlock : Hash256}

/-! ### Checks that change the chain -/

structure Unmoved (permissionsBlock assetsBlock : ℤ) (bestBlock : Hash256)
    (state : ValidationState) (world : World) : Prop
    extends StoresAt permissionsBlock assetsBlock bestBlock world where
  state : world.state = state

variable {state : ValidationState}

def SameBlocks (chain next : Chain) : Prop :=
  next.permissions.block = chain.permissions.block ∧ next.assets.block = chain.assets.block

theorem unmoved_survivesChanges :
    SurvivesChanges SameBlocks (Unmoved permissionsBlock assetsBlock bestBlock state)
      (StoresAt permissionsBlock assetsBlock bestBlock) where
  throw := fun _ hworld => hworld.toStoresAt
  refuse := fun _ _ hworld => ⟨hworld.permissions, hworld.assets, hworld.bestBlock⟩
  bannedBlocks := fun _ _ hworld =>
    ⟨⟨hworld.permissions, hworld.assets, hworld.bestBlock⟩, hworld.state⟩
  chain := fun _ _ hchain hworld =>
    ⟨⟨hchain.1.trans hworld.permissions, hchain.2.trans hworld.assets, hworld.bestBlock⟩,
      hworld.state⟩

/-- The check leaves all three stores where they are, also when it fails, and the validation
state when it succeeds. -/
abbrev KeepsStores {α : Type} (permissionsBlock assetsBlock : ℤ) (bestBlock : Hash256)
    (state : ValidationState) (program : BlockM α) : Prop :=
  Preserves (Unmoved permissionsBlock assetsBlock bestBlock state)
    (StoresAt permissionsBlock assetsBlock bestBlock) program

theorem checkBlockPermissions_block (block : Block) (index : BlockIndex) (store : Store) :
    (checkBlockPermissions env block index store).2.block = store.block := by
  have hcleared : store.copyMemPool.clearMemPool.block = store.block := Store.clearMemPool_block _
  rw [checkBlockPermissions]
  split
  · rfl
  exact (Store.restoreMemPool_block _).trans hcleared

theorem beginBlock_keepsStores (block : Block) (index : BlockIndex) (justCheck : Bool) :
    KeepsStores permissionsBlock assetsBlock bestBlock state
      (beginBlock env block index justCheck) :=
  beginBlock_keeps unmoved_survivesChanges block index justCheck
    (fun _ => ⟨checkBlockPermissions_block _ _ _, rfl⟩)
    fun chain => ⟨chain.permissions.clearMemPool_block, chain.assets.clearMemPool_block⟩

/-! ### Transactions of a block -/

section Transactions

variable (hkeeps : KeepsStoreBlocks env)

include hkeeps

theorem acceptPermissions_blocks (tx : SignedTx) (offset : ℤ) (world : World) :
    (acceptPermissions env tx offset world).1.permissions.block = world.chain.permissions.block
      ∧ (acceptPermissions env tx offset world).1.assets.block = world.chain.assets.block := by
  rw [acceptPermissions]
  split
  · exact acceptMultiChainTransaction_blocks world.chain
  cases haccepted : env.acceptPermissions tx world.chain with
  | error reason => exact ⟨rfl, rfl⟩
  | ok chain => exact hkeeps.permissions tx world.chain chain haccepted

theorem accept_blocks (tx : SignedTx) (offset : ℤ) (world : World) :
    (accept env tx offset world).1.permissions.block = world.chain.permissions.block
      ∧ (accept env tx offset world).1.assets.block = world.chain.assets.block := by
  have hfirst := acceptPermissions_blocks hkeeps tx offset world
  rw [accept]
  split
  · exact hfirst
  cases haccepted : env.acceptAssets tx offset world.coinsOf
      (acceptPermissions env tx offset world).1 with
  | error reason => exact hfirst
  | ok chain =>
    obtain ⟨hpermissions, hassets⟩ := hkeeps.assets _ _ _ _ _ haccepted
    exact ⟨hpermissions.trans hfirst.1, hassets.trans hfirst.2⟩

omit hkeeps in
theorem updateCoins_keepsStores (index : BlockIndex) (tx : SignedTx) :
    KeepsStores permissionsBlock assetsBlock bestBlock state (updateCoins env index tx) := by
  have hspent : ∀ (world : World) (found : Option (CoinsOf × List TxInUndo)),
      Triple (fun now => now = world ∧ Unmoved permissionsBlock assetsBlock bestBlock state world)
        (match found with
          | none => throw .thrown
          | some (spent, _) =>
            set { world with
              coinsOf := Function.update spent tx.hash
                (Coins.fromTx env.unspendable (versioned tx) index.height).live } : BlockM Unit)
        (fun _ => Unmoved permissionsBlock assetsBlock bestBlock state)
        (StoresAt permissionsBlock assetsBlock bestBlock) := by
    rintro world found now ⟨rfl, hworld⟩
    cases found with
    | none => exact hworld.toStoresAt
    | some found =>
      exact ⟨⟨hworld.permissions, hworld.assets, hworld.bestBlock⟩, hworld.state⟩
  exact fun world hworld => hspent world _ world ⟨rfl, hworld⟩

theorem connectTx_keepsStores (index : BlockIndex) (rules : Rules) (totals : Totals)
    (tx : SignedTx) : KeepsStores permissionsBlock assetsBlock bestBlock state
      (connectTx env index rules totals tx) := by
  have hspending : ∀ totals, KeepsStores permissionsBlock assetsBlock bestBlock state
      (checkSpending env index rules tx totals) := by
    intro totals
    apply Preserves.bind Preserves.get
    intro world
    apply Preserves.bind (keeps_refuseIf unmoved_survivesChanges.toSurvivesChecks)
    intro _
    apply Preserves.bind (keeps_refuseIf unmoved_survivesChanges.toSurvivesChecks)
    intro _
    apply Preserves.bind (valueOut_keeps unmoved_survivesChanges.toSurvivesChecks tx)
    intro value
    apply Preserves.bind (checkInputsM_keeps unmoved_survivesChanges.toSurvivesChecks _ _ _ _)
    intro queued
    exact Preserves.bind (acceptTx_keeps unmoved_survivesChanges tx _ _
      (accept_blocks hkeeps tx _)) fun _ => Preserves.pure _
  apply Preserves.bind (keeps_refuseIf unmoved_survivesChanges.toSurvivesChecks)
  intro _
  apply Preserves.bind (keeps_ite (Preserves.pure _) (hspending _))
  intro checked
  exact Preserves.bind (updateCoins_keepsStores index tx) fun _ => Preserves.pure _

theorem connectTxs_keepsStores (block : Block) (index : BlockIndex) (rules : Rules) :
    KeepsStores permissionsBlock assetsBlock bestBlock state
      (connectTxs env block index rules) := by
  apply Preserves.bind
  · exact Preserves.foldlM (fun totals tx _ => connectTx_keepsStores hkeeps index rules totals tx) _
  intro totals
  apply Preserves.bind
  · exact Preserves.forM fun tx _ => acceptCoinbase_keeps unmoved_survivesChanges tx _ _
      (acceptPermissions_blocks hkeeps tx _)
  exact fun _ => Preserves.pure totals

end Transactions

end Amberchain.Validation
