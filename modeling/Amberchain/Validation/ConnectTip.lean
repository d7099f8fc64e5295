import Amberchain.Validation.Currency
import Amberchain.Validation.StoreBlocks

/-!
# Connecting the tip

`ConnectTip` connects a block on a view of the coins, flushes the view and the chain state, hands
the block to the wallet and moves the tip last.  The permissions and the assets were committed in
`ConnectBlock` by then.
-/

namespace Amberchain.Validation

open Failing Interpreter Permission Storage Transaction

variable (env : BlockEnv)

/-- What `ConnectTip` changes: `pcoinsTip` and the databases, the tip of `chainActive`, and
whether a shutdown was requested. -/
structure TipNode where
  world : World
  tip : Option (Hash256 × ℕ)
  shutdown : Bool

/-- The functions of the wallet, with the errors that they return while the wallet keeps
transactions: `MC_WMD_TXS`. -/
structure WalletCalls where
  keepsTxs : Bool
  beforeCommit : Option McError
  addTx : ℕ → Option McError
  commit : Option McError
  cleanUpAfterBlock : Option McError

/-- What happens outside of the checks of the block. -/
structure TipEvents where
  blockRead : Bool
  disk : Disk
  /-- `view.Flush()` -/
  viewFlushed : Bool
  /-- The reason for which `FlushStateToDisk` fails. -/
  stateFlush : Option String
  wallet : WalletCalls

abbrev TipM := EStateM Refusal TipNode

/-- `Abort`, and the check of the disk space: both request a shutdown. -/
def abort (reason : String) : TipM Unit := do
  modify fun node =>
    { node with
      world := { node.world with state := node.world.state.error reason }
      shutdown := true }
  throw .refused

/-- The coins of `pcoinsTip` stay when the view is dropped. -/
def TipNode.dropView (node : TipNode) (world : World) : TipNode :=
  { node with
    world := { world with coinsOf := node.world.coinsOf, bestBlock := node.world.bestBlock }
    shutdown := node.shutdown
      || (decide (world.state.mode = .error) && decide (node.world.state.mode ≠ .error)) }

/-- `ConnectBlock` on a view, which is flushed when the block is connected.  Only an abort makes
the validation state an error. -/
def connectView (events : TipEvents) (block : Block) (index : BlockIndex) : TipM Unit :=
  fun node =>
    match connectBlock env events.disk block index false node.world with
    | .ok _ world =>
      if events.viewFlushed then .ok () { node with world := world }
      else .error .thrown (node.dropView world)
    | .error refusal world => .error refusal (node.dropView world)

/-- An error of the wallet: `return error(...)`. -/
def walletCall (calls : WalletCalls) (err : Option McError) : TipM Unit :=
  if calls.keepsTxs && err.isSome then throw .refused else pure ()

def commitWallet (calls : WalletCalls) (block : Block) : TipM Unit := do
  walletCall calls calls.beforeCommit
  (List.range block.vtx.length).forM fun i => walletCall calls (calls.addTx i)
  walletCall calls calls.commit
  walletCall calls calls.cleanUpAfterBlock

def updateTip (index : BlockIndex) : TipM Unit :=
  modify fun node => { node with tip := some (index.hash, index.height) }

def connectTip (events : TipEvents) (block : Block) (index : BlockIndex) : TipM Unit := do
  let node ← get
  (if index.prev = node.tip then pure () else throw .thrown)
  (if events.blockRead then pure () else abort "Failed to read block")
  connectView env events block index
  (match events.stateFlush with
    | none => pure ()
    | some reason => abort reason)
  commitWallet events.wallet block
  updateTip index

/-- What `ConnectBlock` does before it commits permissions and assets. -/
def prepareBlock (disk : Disk) (block : Block) (index : BlockIndex) : BlockM (Hash160 × ℤ) := do
  let miner ← beginBlock env block index false
  if block.hash = env.genesisHash then do
    let _ ← block.vtx.foldlM (connectGenesisTx env) (firstOffset block)
    pure (miner, 0)
  else do
    checkOverwrites env block
    let totals ← connectTxs env block index (rulesOf env block index false)
    checkCoinbaseValue env block index totals
    (if index.undoMissing || !index.scriptsValid then writeUndo disk index else pure ())
    writeTxIndex env disk
    pure (miner, totals.fees)

theorem connectBlock_eq (disk : Disk) (block : Block) (index : BlockIndex) :
    connectBlock env disk block index false = (do
      let prepared ← prepareBlock env disk block index
      commitChain env disk block prepared.1 (decide (block.hash = env.genesisHash))
      setBestBlock index.hash
      pure prepared.2) := by
  rw [connectBlock, prepareBlock]
  by_cases hgenesis : block.hash = env.genesisHash
  · simp only [hgenesis, if_true, connectGenesis, bind_assoc, pure_bind, decide_true]
  simp only [hgenesis, if_false, finishBlock, bind_assoc, pure_bind, decide_false,
    Bool.false_eq_true]

theorem commitAssets_block (disk : Disk) (assets : Entity.AssetDB) :
    (commitAssets env disk assets).1.block
      = if (commitAssets env disk assets).2.isNone then assets.block + 1 else assets.block := by
  rw [commitAssets]
  split
  · exact assets.commit_block env.params
  exact Entity.AssetDB.rollBack_block env.params _ (assets.commitLoop_block env.params)

def stranded (disk : Disk) (genesis : Bool) (world : World) : Bool :=
  disk.permissionsCommitted && (commitAssets env disk world.chain.assets).2.isSome
    && (genesis || !disk.permissionsRolledBack)

def bothCommitted (disk : Disk) (world : World) : Bool :=
  disk.permissionsCommitted && (commitAssets env disk world.chain.assets).2.isNone

variable {env} {permissionsBlock assetsBlock : ℤ} {bestBlock : Hash256}
  {state : ValidationState}

theorem prepareBlock_keepsStores (hkeeps : KeepsStoreBlocks env) (disk : Disk) (block : Block)
    (index : BlockIndex) : KeepsStores permissionsBlock assetsBlock bestBlock state
      (prepareBlock env disk block index) := by
  apply Preserves.bind (beginBlock_keepsStores block index false)
  intro miner
  apply keeps_ite
  · apply Preserves.bind
    · exact Preserves.foldlM (fun offset tx _ => connectGenesisTx_keeps unmoved_survivesChanges
        offset tx (acceptPermissions_blocks hkeeps tx offset)) _
    exact fun _ => Preserves.pure _
  apply Preserves.bind
  · exact Preserves.bind Preserves.get fun _ =>
      keeps_refuseIf unmoved_survivesChanges.toSurvivesChecks
  intro _
  apply Preserves.bind (connectTxs_keepsStores hkeeps block index _)
  intro totals
  apply Preserves.bind (checkCoinbaseValue_keeps unmoved_survivesChanges.toSurvivesChecks block index totals)
  intro _
  apply Preserves.bind
  · exact keeps_ite (writeUndo_keeps unmoved_survivesChanges.toSurvivesChecks disk index) (Preserves.pure ())
  intro _
  apply Preserves.bind (writeTxIndex_keeps unmoved_survivesChanges.toSurvivesChecks disk)
  exact fun _ => Preserves.pure _

/-- What `commitChain` does, by whether the permissions and the assets are committed. -/
theorem commitChain_run (disk : Disk) (block : Block) (miner : Hash160) (genesis : Bool)
    (world : World) : commitChain env disk block miner genesis world =
      let permissions := world.chain.permissions.commit env.params miner block.hash
      let committed := commitAssets env disk world.chain.assets
      let refused := world.state.doS 100 REJECT_INVALID "bad-prm-commit" false
      if bothCommitted env disk world then
        .ok () { world with
          chain := { world.chain with permissions := permissions, assets := committed.1 } }
      else if disk.permissionsCommitted then
        .error .refused { world with
          chain := { world.chain with
            permissions :=
              if genesis || !disk.permissionsRolledBack then permissions
              else permissions.rollBack (permissions.block - 1)
            assets := committed.1 }
          state := refused }
      else .error .refused { world with state := refused } := by
  rw [bothCommitted]
  cases hpermissions : disk.permissionsCommitted with
  | false =>
    rw [commitChain, hpermissions]
    rfl
  | true =>
    rw [commitChain, hpermissions, show refuseIf (!true) 100 REJECT_INVALID _ false = pure () from rfl,
      pure_bind, get_bind_apply]
    dsimp only
    cases hassets : (commitAssets env disk world.chain.assets).2 with
    | none => rfl
    | some err => rfl

theorem doS_mode_eq_error (level code : ℕ) (reason : String) (corruption : Bool) :
    (state.doS level code reason corruption).mode = .error ↔ state.mode = .error := by
  by_cases hmode : state.mode = .error
  · simp [ValidationState.doS, hmode]
  simp [ValidationState.doS, hmode]

/-- Both stores are committed, or neither, or the permissions alone. -/
theorem commitChain_cases {disk : Disk} (block : Block) (miner : Hash160) (genesis : Bool)
    {world : World} (hworld : Unmoved permissionsBlock assetsBlock bestBlock state world) :
    if bothCommitted env disk world then
      ∃ next, commitChain env disk block miner genesis world = .ok () next
        ∧ Unmoved (permissionsBlock + 1) (assetsBlock + 1) bestBlock state next
    else
      ∃ next, commitChain env disk block miner genesis world = .error .refused next
        ∧ (next.state.mode = .error ↔ state.mode = .error)
        ∧ StoresAt
          (if stranded env disk genesis world then permissionsBlock + 1 else permissionsBlock)
          assetsBlock bestBlock next := by
  have hrun := @commitChain_run env disk block miner genesis world
  have hassets := commitAssets_block env disk world.chain.assets
  have hpermissions := (world.chain.permissions.commit_block env.params miner block.hash).trans
    (congrArg (· + 1) hworld.permissions)
  have hmode : (world.state.doS 100 REJECT_INVALID "bad-prm-commit" false).mode = .error
      ↔ state.mode = .error := by
    rw [doS_mode_eq_error, hworld.state]
  rw [hworld.assets] at hassets
  cases hboth : bothCommitted env disk world with
  | true =>
    obtain ⟨-, hnone⟩ := Bool.and_eq_true_iff.mp hboth
    rw [if_pos hnone] at hassets
    simp only [hboth, if_true] at hrun
    exact ⟨_, hrun, ⟨hpermissions, hassets, hworld.bestBlock⟩, hworld.state⟩
  | false =>
    simp only [hboth, Bool.false_eq_true, if_false] at hrun
    cases hdisk : disk.permissionsCommitted with
    | false =>
      have hstranded : stranded env disk genesis world = false := by
        rw [stranded, hdisk]
        rfl
      simp only [hdisk, Bool.false_eq_true, if_false] at hrun
      rw [hstranded]
      exact ⟨_, hrun, hmode, hworld.permissions, hworld.assets, hworld.bestBlock⟩
    | true =>
      have hsome : (commitAssets env disk world.chain.assets).2.isNone = false := by
        rw [bothCommitted, hdisk] at hboth
        exact hboth
      have hstranded : stranded env disk genesis world
          = (genesis || !disk.permissionsRolledBack) := by
        rw [stranded, hdisk, ← Option.not_isNone, hsome]
        rfl
      rw [hsome] at hassets
      simp only [hdisk, if_true] at hrun
      refine ⟨_, hrun, hmode, ?_, hassets, hworld.bestBlock⟩
      rw [hstranded]
      split
      · exact hpermissions
      exact (Store.rollBack_block _ _).trans (by rw [hpermissions]; ring)

/-- `ConnectBlock` behind a block that is ready for its commits. -/
theorem connectBlock_ready {disk : Disk} {block : Block} {index : BlockIndex} {world ready : World}
    {prepared : Hash160 × ℤ} (hready : prepareBlock env disk block index world = .ok prepared ready)
    (hworld : Unmoved permissionsBlock assetsBlock bestBlock state ready) :
    if bothCommitted env disk ready then
      ∃ next, connectBlock env disk block index false world = .ok prepared.2 next
        ∧ Unmoved (permissionsBlock + 1) (assetsBlock + 1) index.hash state next
    else
      ∃ next, connectBlock env disk block index false world = .error .refused next
        ∧ (next.state.mode = .error ↔ state.mode = .error)
        ∧ StoresAt
          (if stranded env disk (decide (block.hash = env.genesisHash)) ready then
            permissionsBlock + 1 else permissionsBlock) assetsBlock bestBlock next := by
  have hcommits := @commitChain_cases env _ _ _ _ disk block prepared.1
    (decide (block.hash = env.genesisHash)) ready hworld
  rw [connectBlock_eq, bind_apply, hready]
  cases hboth : bothCommitted env disk ready with
  | true =>
    rw [hboth] at hcommits
    obtain ⟨next, hrun, hnext⟩ := hcommits
    refine ⟨{ next with bestBlock := index.hash }, ?_,
      ⟨hnext.permissions, hnext.assets, rfl⟩, hnext.state⟩
    change (commitChain env disk block prepared.1 (decide (block.hash = env.genesisHash))
      >>= fun _ => setBestBlock index.hash >>= fun _ => pure prepared.2) ready = _
    rw [bind_apply, hrun]
    rfl
  | false =>
    rw [hboth] at hcommits
    obtain ⟨next, hrun, hnext⟩ := hcommits
    refine ⟨next, ?_, hnext⟩
    change (commitChain env disk block prepared.1 (decide (block.hash = env.genesisHash))
      >>= fun _ => setBestBlock index.hash >>= fun _ => pure prepared.2) ready = _
    rw [bind_apply, hrun]

/-- One of the functions of the wallet returns an error. -/
def WalletCalls.fails (calls : WalletCalls) (block : Block) : Bool :=
  calls.keepsTxs
    && (calls.beforeCommit.isSome
      || (List.range block.vtx.length).any (fun i => (calls.addTx i).isSome)
      || calls.commit.isSome || calls.cleanUpAfterBlock.isSome)

theorem walletCall_run (calls : WalletCalls) (err : Option McError) (node : TipNode) :
    walletCall calls err node
      = if calls.keepsTxs && err.isSome then .error .refused node else .ok () node := by
  rw [walletCall]
  split <;> rfl

theorem walletCall_bind {first : TipM Unit} {second : TipM Unit} {fails failsThen : Bool}
    {node : TipNode} (hfirst : first node = if fails then .error .refused node else .ok () node)
    (hsecond : second node = if failsThen then .error .refused node else .ok () node) :
    (first >>= fun _ => second) node
      = if fails || failsThen then .error .refused node else .ok () node := by
  rw [bind_apply, hfirst]
  cases fails with
  | true => rfl
  | false => exact hsecond

theorem forM_walletCall (calls : WalletCalls) (errors : ℕ → Option McError) (txs : List ℕ)
    (node : TipNode) : txs.forM (fun i => walletCall calls (errors i)) node
      = if calls.keepsTxs && txs.any (fun i => (errors i).isSome) then .error .refused node
        else .ok () node := by
  induction txs with
  | nil =>
    rw [List.any_nil, Bool.and_false]
    rfl
  | cons i txs ih =>
    rw [List.any_cons, Bool.and_or_distrib_left]
    exact walletCall_bind (walletCall_run calls (errors i) node) ih

theorem commitWallet_run (calls : WalletCalls) (block : Block) (node : TipNode) :
    commitWallet calls block node
      = if calls.fails block then .error .refused node else .ok () node := by
  rw [WalletCalls.fails, Bool.or_assoc, Bool.or_assoc, Bool.and_or_distrib_left,
    Bool.and_or_distrib_left, Bool.and_or_distrib_left]
  apply walletCall_bind (walletCall_run calls _ node)
  apply walletCall_bind (forM_walletCall calls calls.addTx _ node)
  exact walletCall_bind (walletCall_run calls _ node) (walletCall_run calls _ node)

def positionHeight : Option (Hash256 × ℕ) → ℤ
  | none => -1
  | some position => position.2

def positionHash : Option (Hash256 × ℕ) → Hash256
  | none => 0
  | some position => position.1

structure TipNode.BelongsTo (node : TipNode) (position : Option (Hash256 × ℕ)) : Prop where
  tip : node.tip = position
  stores : StoresAt (positionHeight position) (positionHeight position) (positionHash position)
    node.world

variable (env) in
/-- After `ConnectTip` all four belong to the new block when it returned true, and to the tip
before when it returned false without requesting a shutdown. -/
def AllOrNothing (events : TipEvents) (block : Block) (index : BlockIndex) (node : TipNode) :
    Prop :=
  match connectTip env events block index { node with shutdown := false } with
  | .ok _ after => after.BelongsTo (some (index.hash, index.height))
  | .error .refused after => after.shutdown = false → after.BelongsTo node.tip
  | .error .thrown _ => True

variable (env) in
/-- The two ways in which `ConnectTip` leaves half of the block behind: the assets are not
committed and the permissions stay committed, or the wallet returns an error when everything else
is committed. -/
inductive LeavesHalf (events : TipEvents) (block : Block) (index : BlockIndex) (node : TipNode) :
    Prop where
  | permissions {prepared : Hash160 × ℤ} {ready : World}
      (hprev : index.prev = node.tip) (hread : events.blockRead = true)
      (hready : prepareBlock env events.disk block index node.world = .ok prepared ready)
      (hstranded : stranded env events.disk (decide (block.hash = env.genesisHash)) ready = true)
  | wallet {prepared : Hash160 × ℤ} {ready : World}
      (hprev : index.prev = node.tip) (hread : events.blockRead = true)
      (hready : prepareBlock env events.disk block index node.world = .ok prepared ready)
      (hcommitted : bothCommitted env events.disk ready = true)
      (hview : events.viewFlushed = true) (hflush : events.stateFlush = none)
      (hfails : events.wallet.fails block = true)

variable {events : TipEvents} {block : Block} {index : BlockIndex} {node : TipNode}

theorem connectTip_unread (hprev : index.prev = node.tip) (hread : events.blockRead = false) :
    ∃ after, connectTip env events block index node = .error .refused after
      ∧ after.shutdown = true := by
  refine ⟨{ node with
    world := { node.world with state := node.world.state.error "Failed to read block" }
    shutdown := true }, ?_, rfl⟩
  change ((if index.prev = node.tip then pure () else throw .thrown : TipM Unit) >>= fun _ =>
    (if events.blockRead then pure () else abort "Failed to read block") >>= fun _ => _) node = _
  rw [if_pos hprev, hread]
  rfl

theorem connectTip_misplaced (hprev : index.prev ≠ node.tip) :
    connectTip env events block index node = .error .thrown node := by
  change ((if index.prev = node.tip then pure () else throw .thrown : TipM Unit) >>= fun _ => _)
    node = _
  rw [if_neg hprev]
  rfl

/-- What `ConnectTip` does behind `ConnectBlock`. -/
theorem connectTip_read (hprev : index.prev = node.tip) (hread : events.blockRead = true) :
    connectTip env events block index node =
      match connectView env events block index node with
      | .error refusal next => .error refusal next
      | .ok _ next =>
        match events.stateFlush with
        | some reason => .error .refused { next with
            world := { next.world with state := next.world.state.error reason }
            shutdown := true }
        | none =>
          if events.wallet.fails block then .error .refused next
          else .ok () { next with tip := some (index.hash, index.height) } := by
  change ((if index.prev = node.tip then pure () else throw .thrown : TipM Unit) >>= fun _ =>
    (if events.blockRead then pure () else abort "Failed to read block") >>= fun _ => _) node = _
  rw [if_pos hprev, hread]
  change (connectView env events block index >>= fun _ =>
    (match events.stateFlush with
      | none => pure ()
      | some reason => abort reason) >>= fun _ =>
    commitWallet events.wallet block >>= fun _ => updateTip index) node = _
  rw [bind_apply]
  cases connectView env events block index node with
  | error refusal next => rfl
  | ok value next =>
    cases events.stateFlush with
    | some reason => rfl
    | none =>
      change (commitWallet events.wallet block >>= fun _ => updateTip index) next = _
      rw [bind_apply, commitWallet_run]
      cases events.wallet.fails block with
      | true => rfl
      | false => rfl

theorem positionHeight_succ (index : BlockIndex) :
    positionHeight (some (index.hash, index.height)) = positionHeight index.prev + 1 := by
  rw [BlockIndex.height]
  cases index.prev with
  | none => rfl
  | some prev => exact Int.natCast_succ prev.2

theorem TipNode.BelongsTo.dropView {world : World} {hash : Hash256}
    (hnode : node.BelongsTo node.tip)
    (hworld : StoresAt (positionHeight node.tip) (positionHeight node.tip) hash world) :
    (node.dropView world).BelongsTo node.tip :=
  ⟨rfl, hworld.permissions, hworld.assets, hnode.stores.bestBlock⟩

theorem not_belongsTo_of_ahead {position : Option (Hash256 × ℕ)}
    (hahead : node.world.chain.permissions.block = positionHeight position + 1) :
    ¬ node.BelongsTo position := by
  intro hnode
  have hblock := hnode.stores.permissions
  omega

theorem stranded_of_bothCommitted {disk : Disk} {genesis : Bool} {world : World}
    (hboth : bothCommitted env disk world = true) : stranded env disk genesis world = false := by
  obtain ⟨hdisk, hnone⟩ := Bool.and_eq_true_iff.mp hboth
  rw [stranded, hdisk, ← Option.not_isNone, hnone]
  rfl

theorem connectBlock_unready {disk : Disk} {world next : World} {refusal : Refusal}
    (hready : prepareBlock env disk block index world = .error refusal next) :
    connectBlock env disk block index false world = .error refusal next := by
  rw [connectBlock_eq, bind_apply, hready]

theorem connectView_refused {next : World} {refusal : Refusal}
    (hrun : connectBlock env events.disk block index false node.world = .error refusal next) :
    connectView env events block index node = .error refusal (node.dropView next) := by
  rw [connectView, hrun]

theorem allOrNothing_of_read (hprev : index.prev = node.tip) (hread : events.blockRead = true) :
    AllOrNothing env events block index node ↔
      match connectView env events block index { node with shutdown := false } with
      | .error .refused next => next.shutdown = false → next.BelongsTo node.tip
      | .error .thrown _ => True
      | .ok _ next =>
        events.stateFlush = none →
          if events.wallet.fails block then next.shutdown = false → next.BelongsTo node.tip
          else TipNode.BelongsTo { next with tip := some (index.hash, index.height) }
            (some (index.hash, index.height)) := by
  have hrun := @connectTip_read env events block index { node with shutdown := false } hprev hread
  rw [AllOrNothing, hrun]
  cases connectView env events block index { node with shutdown := false } with
  | error refusal next => cases refusal <;> rfl
  | ok value next =>
    cases events.stateFlush with
    | some reason => simp
    | none => cases events.wallet.fails block <;> simp

section Ready

variable (hkeeps : KeepsStoreBlocks env) (hnode : node.BelongsTo node.tip)
  (hprev : index.prev = node.tip) (hread : events.blockRead = true)

include hkeeps hnode hprev hread

theorem allOrNothing_unready {next : World} {refusal : Refusal}
    (hready : prepareBlock env events.disk block index node.world = .error refusal next) :
    AllOrNothing env events block index node := by
  have hstores := prepareBlock_keepsStores hkeeps events.disk block index node.world
    ⟨hnode.stores, rfl⟩
  rw [hready] at hstores
  have hview := @connectView_refused env events block index { node with shutdown := false } next
    refusal (connectBlock_unready hready)
  rw [allOrNothing_of_read hprev hread, hview]
  have hbelongs : TipNode.BelongsTo { node with shutdown := false } node.tip := ⟨rfl, hnode.stores⟩
  cases refusal with
  | refused => exact fun _ => hbelongs.dropView hstores
  | thrown => trivial

variable {ready : World} {prepared : Hash160 × ℤ}
  (hready : prepareBlock env events.disk block index node.world = .ok prepared ready)

include hready

omit hprev hread in
theorem unmoved_ready :
    Unmoved (positionHeight node.tip) (positionHeight node.tip) (positionHash node.tip)
      node.world.state ready := by
  have hstores := prepareBlock_keepsStores hkeeps events.disk block index node.world
    ⟨hnode.stores, rfl⟩
  rwa [hready] at hstores

theorem allOrNothing_uncommitted (hboth : bothCommitted env events.disk ready = false) :
    AllOrNothing env events block index node ↔
      stranded env events.disk (decide (block.hash = env.genesisHash)) ready = false := by
  have hrun := connectBlock_ready hready (unmoved_ready hkeeps hnode hready)
  rw [hboth] at hrun
  obtain ⟨next, hrun, hmode, hstores⟩ := hrun
  have hview := @connectView_refused env events block index { node with shutdown := false } next
    .refused hrun
  have hshutdown : (TipNode.dropView { node with shutdown := false } next).shutdown = false := by
    by_cases herror : node.world.state.mode = .error
    · simp [TipNode.dropView, herror]
    · simp [TipNode.dropView, mt hmode.mp herror]
  have hbelongs : TipNode.BelongsTo { node with shutdown := false } node.tip := ⟨rfl, hnode.stores⟩
  rw [allOrNothing_of_read hprev hread, hview]
  cases hstranded : stranded env events.disk (decide (block.hash = env.genesisHash)) ready with
  | false =>
    rw [hstranded] at hstores
    exact ⟨fun _ => rfl, fun _ _ => hbelongs.dropView hstores⟩
  | true =>
    rw [hstranded] at hstores
    have hahead : ¬ TipNode.BelongsTo (TipNode.dropView { node with shutdown := false } next)
        node.tip := not_belongsTo_of_ahead hstores.permissions
    exact ⟨fun hall => absurd (hall hshutdown) hahead, fun hfalse => Bool.noConfusion hfalse⟩

theorem allOrNothing_committed (hboth : bothCommitted env events.disk ready = true) :
    AllOrNothing env events block index node ↔
      (events.viewFlushed = true → events.stateFlush = none →
        events.wallet.fails block = false) := by
  have hrun := connectBlock_ready hready (unmoved_ready hkeeps hnode hready)
  rw [hboth] at hrun
  obtain ⟨next, hrun, hstores⟩ := hrun
  rw [allOrNothing_of_read hprev hread, connectView, hrun]
  cases hview : events.viewFlushed with
  | false => simp
  | true =>
    have hheight := positionHeight_succ index
    rw [hprev] at hheight
    simp only [if_true, true_implies]
    refine forall_congr' fun _ => ?_
    cases hfails : events.wallet.fails block with
    | true =>
      simp only [if_true, Bool.true_eq_false, iff_false]
      exact not_belongsTo_of_ahead hstores.permissions
    | false =>
      simp only [Bool.false_eq_true, if_false, iff_true]
      refine ⟨rfl, ?_⟩
      rw [hheight]
      exact hstores.toStoresAt

end Ready

/-- `ConnectTip` is all or nothing, unless it leaves half of the block behind. -/
theorem connectTip_allOrNothing_iff (hkeeps : KeepsStoreBlocks env) (events : TipEvents)
    (block : Block) (index : BlockIndex) (node : TipNode) (hnode : node.BelongsTo node.tip) :
    AllOrNothing env events block index node ↔ ¬ LeavesHalf env events block index node := by
  by_cases hprev : index.prev = node.tip
  · cases hread : events.blockRead with
    | false =>
      have hall : AllOrNothing env events block index node := by
        obtain ⟨after, hrun, hshutdown⟩ := @connectTip_unread env events block index
          { node with shutdown := false } hprev hread
        rw [AllOrNothing, hrun]
        exact fun hfalse => Bool.noConfusion (hshutdown.symm.trans hfalse)
      refine iff_of_true hall fun hhalf => ?_
      cases hhalf with
      | permissions _ htrue => exact absurd (hread.symm.trans htrue) Bool.false_ne_true
      | wallet _ htrue => exact absurd (hread.symm.trans htrue) Bool.false_ne_true
    | true =>
      cases hready : prepareBlock env events.disk block index node.world with
      | error refusal next =>
        refine iff_of_true (allOrNothing_unready hkeeps hnode hprev hread hready) ?_
        intro hhalf
        cases hhalf with
        | permissions _ _ hok => cases hready.symm.trans hok
        | wallet _ _ hok => cases hready.symm.trans hok
      | ok prepared ready =>
        cases hboth : bothCommitted env events.disk ready with
        | false =>
          rw [allOrNothing_uncommitted hkeeps hnode hprev hread hready hboth]
          constructor
          · intro hstranded hhalf
            cases hhalf with
            | permissions _ _ hok htrue =>
              cases hready.symm.trans hok
              exact absurd (hstranded.symm.trans htrue) Bool.false_ne_true
            | wallet _ _ hok htrue =>
              cases hready.symm.trans hok
              exact absurd (hboth.symm.trans htrue) Bool.false_ne_true
          intro hhalf
          exact Bool.eq_false_iff.mpr fun htrue =>
            hhalf (.permissions hprev hread hready htrue)
        | true =>
          rw [allOrNothing_committed hkeeps hnode hprev hread hready hboth]
          constructor
          · intro hfails hhalf
            cases hhalf with
            | permissions _ _ hok htrue =>
              cases hready.symm.trans hok
              exact absurd ((stranded_of_bothCommitted hboth).symm.trans htrue) Bool.false_ne_true
            | wallet _ _ _ _ hview hflush htrue =>
              exact absurd ((hfails hview hflush).symm.trans htrue) Bool.false_ne_true
          intro hhalf hview hflush
          exact Bool.eq_false_iff.mpr fun htrue =>
            hhalf (.wallet hprev hread hready hboth hview hflush htrue)
  · have hall : AllOrNothing env events block index node := by
      have hrun := @connectTip_misplaced env events block index { node with shutdown := false }
        hprev
      rw [AllOrNothing, hrun]
      trivial
    refine iff_of_true hall fun hhalf => ?_
    cases hhalf with
    | permissions hsame => exact hprev hsame
    | wallet hsame => exact hprev hsame

def rewardNode : TipNode where
  world := { minedOnceWorld with
    chain := { minedOnceChain with
      assets := (minedOnceChain.assets.commit rewardEnv.params).1 } }
  tip := some (1, 0)
  shutdown := false

/-- Everything succeeds until the wallet gets the first transaction. -/
def walletFails : TipEvents where
  blockRead := true
  disk := Disk.sound
  viewFlushed := true
  stateFlush := none
  wallet := ⟨true, none, fun _ => some .internalError, none, none⟩

theorem rewardEnv_keepsStoreBlocks : KeepsStoreBlocks rewardEnv where
  permissions := fun _ _ _ hok => by
    cases hok
    exact ⟨rfl, rfl⟩
  assets := fun _ _ _ _ _ hok => by
    cases hok
    exact ⟨rfl, rfl⟩

theorem rewardNode_belongsTo : rewardNode.BelongsTo rewardNode.tip :=
  ⟨rfl, by decide +kernel, by decide +kernel, rfl⟩

theorem walletFails_allOrNothing_iff :
    AllOrNothing rewardEnv walletFails (paidBlock 2 200000000000000000) secondIndex rewardNode
      ↔ ¬ LeavesHalf rewardEnv walletFails (paidBlock 2 200000000000000000) secondIndex
        rewardNode :=
  connectTip_allOrNothing_iff rewardEnv_keepsStoreBlocks _ _ _ _ rewardNode_belongsTo

/-- When the wallet cannot store a transaction, coins, permissions and assets belong to the new
block, and the tip is the block before. -/
theorem wallet_leaves_half :
    ¬ ∀ (env : BlockEnv) (events : TipEvents) (block : Block) (index : BlockIndex)
      (node : TipNode), KeepsStoreBlocks env → node.BelongsTo node.tip →
      AllOrNothing env events block index node := by
  intro hall
  have hcheck : (match prepareBlock rewardEnv walletFails.disk (paidBlock 2 200000000000000000)
      secondIndex rewardNode.world with
    | .ok _ ready => bothCommitted rewardEnv walletFails.disk ready
    | .error _ _ => false) = true := by
    decide +kernel
  cases hready : prepareBlock rewardEnv walletFails.disk (paidBlock 2 200000000000000000)
      secondIndex rewardNode.world with
  | error refusal next =>
    rw [hready] at hcheck
    cases hcheck
  | ok prepared ready =>
    rw [hready] at hcheck
    have hnothing := (allOrNothing_committed rewardEnv_keepsStoreBlocks rewardNode_belongsTo rfl
      rfl hready hcheck).mp (hall rewardEnv walletFails _ secondIndex rewardNode
        rewardEnv_keepsStoreBlocks rewardNode_belongsTo)
    exact absurd (hnothing rfl rfl) (by decide)

end Amberchain.Validation
