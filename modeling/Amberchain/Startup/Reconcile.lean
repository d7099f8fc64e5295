import Mathlib.Algebra.Order.Group.Int
import Mathlib.Data.List.Infix

/-!
# The stores of a node and its start

The coins, the block index, the permissions, the entities and the lists of the wallet are
written one after the other while a block is connected or disconnected.  When the node starts
again `LoadBlockIndexDB` has what was written until then.

An entry of the block index is the path to it from the first block, and no path stands for
`NULL`.  A store is known by the blocks whose changes it holds.
-/

namespace Amberchain.Startup

variable {Block : Type}

def height (blocks : List Block) : ℤ :=
  blocks.length - 1

/-- `RollBack(height)`: what is above the height is taken back. -/
def rollBackTo (height : ℤ) (blocks : List Block) : List Block :=
  blocks.take (height + 1).toNat

/-- What is on disk: the entries of the block index, the best block of the coins, and the three
stores that are committed with each block. -/
structure Disk (Block : Type) where
  blockIndex : List (List Block)
  bestBlock : List Block
  permissions : List Block
  assets : List Block
  wallet : List Block

inductive Write (Block : Type) where
  | blockIndex (entry : List Block)
  | coins (tip : List Block)
  | commitPermissions (block : Block)
  | commitAssets (block : Block)
  | commitWallet (block : Block)
  | rollBackPermissions (height : ℤ)
  | rollBackAssets (height : ℤ)
  | rollBackWallet (height : ℤ)

namespace Disk

variable (disk : Disk Block)

def write : Write Block → Disk Block
  | .blockIndex entry => { disk with blockIndex := entry :: disk.blockIndex }
  | .coins tip => { disk with bestBlock := tip }
  | .commitPermissions block => { disk with permissions := disk.permissions ++ [block] }
  | .commitAssets block => { disk with assets := disk.assets ++ [block] }
  | .commitWallet block => { disk with wallet := disk.wallet ++ [block] }
  | .rollBackPermissions height => { disk with permissions := rollBackTo height disk.permissions }
  | .rollBackAssets height => { disk with assets := rollBackTo height disk.assets }
  | .rollBackWallet height => { disk with wallet := rollBackTo height disk.wallet }

def writeAll (writes : List (Write Block)) : Disk Block :=
  writes.foldl write disk

/-- Before the first start. -/
def empty : Disk Block where
  blockIndex := []
  bestBlock := []
  permissions := []
  assets := []
  wallet := []

end Disk

structure Node (Block : Type) where
  disk : Disk Block
  setDirtyBlockIndex : List (List Block)
  chainActive : List Block

inductive FlushStateMode where
  | ifNeeded
  | periodic
  | always
deriving DecidableEq

/-- What a node does to its chain state.  The cache of coins may be too large and the last
write too long ago. -/
inductive Op (Block : Type) where
  | addToBlockIndex (entry : List Block)
  | connectTip (block : Block)
  | disconnectTip
  | flushStateToDisk (mode : FlushStateMode) (cacheFull intervalOver : Bool)

/-- Whether `FlushStateToDisk` writes. -/
def flushes (mode : FlushStateMode) (cacheFull intervalOver : Bool) : Bool :=
  mode = .always || ((mode = .periodic || mode = .ifNeeded) && cacheFull) ||
    (mode = .periodic && intervalOver)

/-- `FlushStateToDisk`: the entries of the block index, then the coins. -/
def flushStateToDisk (mode : FlushStateMode) (cacheFull intervalOver : Bool)
    (dirty : List (List Block)) (tip : List Block) : List (Write Block) :=
  if flushes mode cacheFull intervalOver then dirty.map .blockIndex ++ [.coins tip] else []

def rollBackWrites (walletTxs : Bool) (height : ℤ) : List (Write Block) :=
  [.rollBackPermissions height, .rollBackAssets height] ++
    if walletTxs then [.rollBackWallet height] else []

namespace Node

variable (node : Node Block)

/-- `mapBlockIndex` -/
def knows (entry : List Block) : Prop :=
  entry ∈ node.disk.blockIndex ∨ entry ∈ node.setDirtyBlockIndex

/-- What can be done: the parent of an entry is known, a block is connected to the tip, and the
first block stays. -/
def Allows : Op Block → Prop
  | .addToBlockIndex entry => entry ≠ [] ∧ (entry.length = 1 ∨ node.knows entry.dropLast)
  | .connectTip block => node.knows (node.chainActive ++ [block])
  | .disconnectTip => 2 ≤ node.chainActive.length
  | .flushStateToDisk _ _ _ => True

/-- The entries to be written once `ConnectBlock` is done, which marks no first block. -/
def dirtyAfterConnect (block : Block) : List (List Block) :=
  if node.chainActive = [] then node.setDirtyBlockIndex
  else (node.chainActive ++ [block]) :: node.setDirtyBlockIndex

/-- The batches of an operation in their order.  The wallet has lists of transactions or not. -/
def writes (walletTxs : Bool) : Op Block → List (Write Block)
  | .addToBlockIndex _ => []
  | .connectTip block => [.commitPermissions block, .commitAssets block] ++
      flushStateToDisk .always false false (node.dirtyAfterConnect block)
        (node.chainActive ++ [block]) ++
      if walletTxs then [.commitWallet block] else []
  | .disconnectTip =>
    flushStateToDisk .always false false node.setDirtyBlockIndex node.chainActive.dropLast ++
      rollBackWrites walletTxs (height node.chainActive - 1)
  | .flushStateToDisk mode cacheFull intervalOver =>
    flushStateToDisk mode cacheFull intervalOver node.setDirtyBlockIndex node.chainActive

def step (walletTxs : Bool) (op : Op Block) : Node Block where
  disk := node.disk.writeAll (node.writes walletTxs op)
  setDirtyBlockIndex :=
    match op with
    | .addToBlockIndex entry => entry :: node.setDirtyBlockIndex
    | .connectTip _ => []
    | .disconnectTip => []
    | .flushStateToDisk mode cacheFull intervalOver =>
      if flushes mode cacheFull intervalOver then [] else node.setDirtyBlockIndex
  chainActive :=
    match op with
    | .connectTip block => node.chainActive ++ [block]
    | .disconnectTip => node.chainActive.dropLast
    | _ => node.chainActive

end Node

/-! ## The start -/

section Start

variable [DecidableEq Block]

instance (node : Node Block) (entry : List Block) : Decidable (node.knows entry) :=
  inferInstanceAs (Decidable (entry ∈ node.disk.blockIndex ∨ entry ∈ node.setDirtyBlockIndex))

instance (node : Node Block) : (op : Op Block) → Decidable (node.Allows op)
  | .addToBlockIndex entry =>
    inferInstanceAs (Decidable (entry ≠ [] ∧ (entry.length = 1 ∨ node.knows entry.dropLast)))
  | .connectTip block => inferInstanceAs (Decidable (node.knows (node.chainActive ++ [block])))
  | .disconnectTip => inferInstanceAs (Decidable (2 ≤ node.chainActive.length))
  | .flushStateToDisk _ _ _ => inferInstanceAs (Decidable True)

/-- `SetLastBlock` of a block of the chain: tips are disconnected until it is the last one. -/
def setLastBlock (walletTxs : Bool) (last : ℤ) (node : Node Block) : Node Block :=
  Nat.iterate (fun node => node.step walletTxs .disconnectTip)
    (height node.chainActive - last).toNat node

/-- `ActivateBestChain`: what it connects and disconnects is decided by the work and by the
validity of the blocks. -/
def activateBestChain (walletTxs : Bool) (choices : List (Op Block)) (node : Node Block) :
    Node Block :=
  choices.foldl (fun node op => if node.Allows op then node.step walletTxs op else node) node

/-- `corrupted`: a store is behind the tip, or two stores differ. -/
def corrupted (walletTxs : Bool) (disk : Disk Block) : Bool :=
  height disk.permissions < height disk.bestBlock ||
    height disk.assets < height disk.bestBlock ||
    height disk.permissions ≠ height disk.assets ||
    (walletTxs && (height disk.wallet < height disk.bestBlock ||
      height disk.permissions ≠ height disk.wallet))

def blockToRollback (walletTxs : Bool) (disk : Disk Block) : ℤ :=
  let lowest := min (height disk.permissions) (height disk.assets)
  max 0 (if walletTxs then min lowest (height disk.wallet) else lowest)

def loadBlockIndexDB (walletTxs : Bool) (choices : List (Op Block)) (disk : Disk Block) :
    Node Block :=
  if disk.bestBlock ∉ disk.blockIndex then ⟨disk, [], []⟩
  else
    let node : Node Block := ⟨disk, [], disk.bestBlock⟩
    let node :=
      if corrupted walletTxs disk ∧ blockToRollback walletTxs disk < height disk.bestBlock then
        activateBestChain walletTxs choices
          (setLastBlock walletTxs (blockToRollback walletTxs disk) node)
      else node
    { node with disk := node.disk.writeAll (rollBackWrites walletTxs (height node.chainActive)) }

end Start

end Amberchain.Startup

/-!
# The stores after a start

Permissions and entities are written before the coins and taken back after them, so they are
never behind the coins on disk, and the wallet is at most behind them on the same chain.  From
such a disk `LoadBlockIndexDB` reaches a node whose stores hold its chain.  Only the first
block leaves another disk behind: without coins nothing is taken back.
-/

namespace Amberchain.Startup

variable {Block : Type} {walletTxs : Bool}

/-! ## Rolling back -/

theorem height_add_one_toNat (blocks : List Block) : (height blocks + 1).toNat = blocks.length := by
  unfold height
  omega

variable {chain blocks : List Block}

theorem rollBackTo_of_prefix (hchain : chain <+: blocks) :
    rollBackTo (height chain) blocks = chain := by
  rw [rollBackTo, height_add_one_toNat]
  exact (List.prefix_iff_eq_take.mp hchain).symm

theorem height_dropLast {chain : List Block} (hne : chain ≠ []) :
    height chain - 1 = height chain.dropLast := by
  have hpos := List.length_pos_of_ne_nil hne
  unfold height
  rw [List.length_dropLast]
  omega

theorem rollBackTo_of_length_le
    (hle : blocks.length ≤ chain.length) : rollBackTo (height chain) blocks = blocks := by
  rw [rollBackTo, height_add_one_toNat]
  exact List.take_of_length_le hle

/-! ## Disks -/

namespace Disk

variable (disk : Disk Block)

theorem writeAll_append (first second : List (Write Block)) :
    disk.writeAll (first ++ second) = (disk.writeAll first).writeAll second :=
  List.foldl_append

theorem writeAll_blockIndex (entries : List (List Block)) :
    disk.writeAll (entries.map .blockIndex) =
      { disk with blockIndex := entries.reverse ++ disk.blockIndex } := by
  induction entries generalizing disk with
  | nil => rfl
  | cons entry entries ih =>
    have hrest := ih (disk.write (.blockIndex entry))
    rw [List.reverse_cons, List.append_assoc]
    exact hrest

theorem writeAll_flush {mode : FlushStateMode} {cacheFull intervalOver : Bool}
    (hflushes : flushes mode cacheFull intervalOver = true) (dirty : List (List Block))
    (tip : List Block) : disk.writeAll (flushStateToDisk mode cacheFull intervalOver dirty tip) =
      { disk with blockIndex := dirty.reverse ++ disk.blockIndex, bestBlock := tip } := by
  rw [flushStateToDisk, if_pos hflushes, writeAll_append, writeAll_blockIndex]
  rfl

theorem writeAll_rollBack (walletTxs : Bool) (height : ℤ) :
    disk.writeAll (rollBackWrites walletTxs height) = { disk with
        permissions := rollBackTo height disk.permissions
        assets := rollBackTo height disk.assets
        wallet := if walletTxs then rollBackTo height disk.wallet else disk.wallet } := by
  cases walletTxs <;> rfl

structure HoldsChain (walletTxs : Bool) (disk : Disk Block) (chain : List Block) : Prop where
  permissions : disk.permissions = chain
  assets : disk.assets = chain
  wallet : walletTxs = true → disk.wallet = chain

/-- The coins have a best block, permissions and entities are not behind it, and the wallet is
on its chain. -/
structure Recoverable (walletTxs : Bool) (disk : Disk Block) : Prop where
  best : disk.bestBlock ≠ []
  permissions : disk.bestBlock <+: disk.permissions
  assets : disk.bestBlock <+: disk.assets
  wallet : walletTxs = true →
    disk.wallet ≠ [] ∧ (disk.wallet <+: disk.bestBlock ∨ disk.bestBlock <+: disk.wallet)
  indexed : ∀ entry, entry ≠ [] → entry <+: disk.bestBlock → entry ∈ disk.blockIndex
  proper : ∀ entry ∈ disk.blockIndex, entry ≠ []

/-- Nothing was connected yet. -/
structure Untouched (walletTxs : Bool) (disk : Disk Block) : Prop where
  best : disk.bestBlock = []
  holds : disk.HoldsChain walletTxs []
  proper : ∀ entry ∈ disk.blockIndex, entry ≠ []

theorem Recoverable.index {disk : Disk Block} (hdisk : disk.Recoverable walletTxs)
    {entries : List (List Block)} (hproper : ∀ entry ∈ entries, entry ≠ []) :
    Recoverable walletTxs { disk with blockIndex := entries ++ disk.blockIndex } where
  best := hdisk.best
  permissions := hdisk.permissions
  assets := hdisk.assets
  wallet := hdisk.wallet
  indexed := fun entry hne hinit => List.mem_append_right _ (hdisk.indexed entry hne hinit)
  proper := fun entry hentry =>
    (List.mem_append.mp hentry).elim (hproper entry) (hdisk.proper entry)

theorem Untouched.index {disk : Disk Block} (hdisk : disk.Untouched walletTxs)
    {entries : List (List Block)} (hproper : ∀ entry ∈ entries, entry ≠ []) :
    Untouched walletTxs { disk with blockIndex := entries ++ disk.blockIndex } where
  best := hdisk.best
  holds := ⟨hdisk.holds.permissions, hdisk.holds.assets, hdisk.holds.wallet⟩
  proper := fun entry hentry =>
    (List.mem_append.mp hentry).elim (hproper entry) (hdisk.proper entry)

/-! ## Crashes -/

def AllCrashes (good : Disk Block → Prop) (disk : Disk Block) (writes : List (Write Block)) :
    Prop :=
  ∀ count, good (disk.writeAll (writes.take count))

namespace AllCrashes

variable {good : Disk Block → Prop} {disk : Disk Block}

theorem nil (hgood : good disk) : AllCrashes good disk [] := by
  intro count
  rw [List.take_nil]
  exact hgood

theorem cons {write : Write Block} {writes : List (Write Block)} (hgood : good disk)
    (hrest : AllCrashes good (disk.write write) writes) :
    AllCrashes good disk (write :: writes) := by
  intro count
  cases count with
  | zero => exact hgood
  | succ count => exact hrest count

theorem append {first second : List (Write Block)} (hfirst : AllCrashes good disk first)
    (hsecond : AllCrashes good (disk.writeAll first) second) :
    AllCrashes good disk (first ++ second) := by
  intro count
  rw [List.take_append, writeAll_append]
  by_cases hcount : count ≤ first.length
  · rw [Nat.sub_eq_zero_of_le hcount]
    exact hfirst count
  rw [List.take_of_length_le (Nat.le_of_not_le hcount)]
  exact hsecond _

theorem blockIndex {entries : List (List Block)}
    (hgood : ∀ some, (∀ entry ∈ some, entry ∈ entries) →
      good { disk with blockIndex := some ++ disk.blockIndex }) :
    AllCrashes good disk (entries.map .blockIndex) := by
  intro count
  rw [← List.map_take, writeAll_blockIndex]
  exact hgood _ fun entry hentry => List.mem_of_mem_take (List.mem_reverse.mp hentry)

end AllCrashes

end Disk

/-! ## Nodes at rest -/

namespace Node

structure Settled (walletTxs : Bool) (node : Node Block) : Prop where
  best : node.disk.bestBlock = node.chainActive
  holds : node.disk.HoldsChain walletTxs node.chainActive
  indexed : ∀ entry, entry ≠ [] → entry <+: node.chainActive → entry ∈ node.disk.blockIndex
  proper : ∀ entry, node.knows entry → entry ≠ []

namespace Settled

variable {node : Node Block}

theorem dirty_proper (hnode : node.Settled walletTxs) :
    ∀ entry ∈ node.setDirtyBlockIndex, entry ≠ [] :=
  fun entry hentry => hnode.proper entry (.inr hentry)

theorem recoverable (hnode : node.Settled walletTxs) (hne : node.chainActive ≠ []) :
    node.disk.Recoverable walletTxs where
  best := by rwa [hnode.best]
  permissions := by
    rw [hnode.best, hnode.holds.permissions]
  assets := by
    rw [hnode.best, hnode.holds.assets]
  wallet := fun hwallet => by
    rw [hnode.best, hnode.holds.wallet hwallet]
    exact ⟨hne, .inl List.prefix_rfl⟩
  indexed := by
    rw [hnode.best]
    exact hnode.indexed
  proper := fun entry hentry => hnode.proper entry (.inl hentry)

theorem untouched (hnode : node.Settled walletTxs) (hnil : node.chainActive = []) :
    node.disk.Untouched walletTxs where
  best := by rw [hnode.best, hnil]
  holds := by
    rw [← hnil]
    exact hnode.holds
  proper := fun entry hentry => hnode.proper entry (.inl hentry)

theorem indexed_append {index dirty : List (List Block)} {chain : List Block} {block : Block}
    (hindexed : ∀ entry, entry ≠ [] → entry <+: chain → entry ∈ index)
    (hmem : chain ++ [block] ∈ dirty ++ index) :
    ∀ entry, entry ≠ [] → entry <+: chain ++ [block] → entry ∈ dirty ++ index := by
  intro entry hne hinit
  rcases List.prefix_concat_iff.mp hinit with heq | hinit
  · rw [heq]
    exact hmem
  exact List.mem_append_right _ (hindexed entry hne hinit)

theorem mem_written {block : Block} (hallows : node.Allows (.connectTip block)) :
    node.chainActive ++ [block] ∈
      (node.dirtyAfterConnect block).reverse ++ node.disk.blockIndex := by
  rcases hallows with hmem | hmem
  · exact List.mem_append_right _ hmem
  refine List.mem_append_left _ (List.mem_reverse.mpr ?_)
  unfold dirtyAfterConnect
  split_ifs
  · exact hmem
  exact .head _

theorem dirtyAfterConnect_proper (hnode : node.Settled walletTxs) (block : Block) :
    ∀ entry ∈ node.dirtyAfterConnect block, entry ≠ [] := by
  intro entry hentry
  unfold dirtyAfterConnect at hentry
  split_ifs at hentry
  · exact hnode.dirty_proper entry hentry
  rcases List.mem_cons.mp hentry with rfl | hentry
  · exact List.append_ne_nil_of_right_ne_nil _ (List.cons_ne_nil _ _)
  exact hnode.dirty_proper entry hentry

theorem writeAll_connectTip (disk : Disk Block) (dirty : List (List Block)) (tip : List Block)
    (block : Block) : disk.writeAll ([.commitPermissions block, .commitAssets block] ++
        flushStateToDisk .always false false dirty tip ++
        if walletTxs then [.commitWallet block] else []) =
      { disk with
        blockIndex := dirty.reverse ++ disk.blockIndex
        bestBlock := tip
        permissions := disk.permissions ++ [block]
        assets := disk.assets ++ [block]
        wallet := if walletTxs then disk.wallet ++ [block] else disk.wallet } := by
  rw [Disk.writeAll_append, Disk.writeAll_append, Disk.writeAll_flush _ rfl]
  cases walletTxs <;> rfl

theorem connectTip (hnode : node.Settled walletTxs) {block : Block}
    (hallows : node.Allows (.connectTip block)) :
    (node.step walletTxs (.connectTip block)).Settled walletTxs := by
  have hdisk : (node.step walletTxs (.connectTip block)).disk = _ :=
    writeAll_connectTip node.disk (node.dirtyAfterConnect block) (node.chainActive ++ [block]) block
  refine ⟨?_, ⟨?_, ?_, fun hwallet => ?_⟩, ?_, fun entry hentry => ?_⟩
  · rw [hdisk]
    rfl
  · rw [hdisk]
    exact congrArg (· ++ [block]) hnode.holds.permissions
  · rw [hdisk]
    exact congrArg (· ++ [block]) hnode.holds.assets
  · rw [hdisk]
    rw [if_pos hwallet, hnode.holds.wallet hwallet]
    rfl
  · rw [hdisk]
    exact indexed_append hnode.indexed (mem_written hallows)
  rcases hentry with hentry | hentry
  · rw [hdisk] at hentry
    rcases List.mem_append.mp hentry with hentry | hentry
    · exact hnode.dirtyAfterConnect_proper block entry (List.mem_reverse.mp hentry)
    · exact hnode.proper entry (.inl hentry)
  cases hentry

theorem writeAll_disconnectTip (disk : Disk Block) (dirty : List (List Block)) (tip : List Block)
    (height : ℤ) : disk.writeAll (flushStateToDisk .always false false dirty tip ++
        rollBackWrites walletTxs height) = { disk with
        blockIndex := dirty.reverse ++ disk.blockIndex
        bestBlock := tip
        permissions := rollBackTo height disk.permissions
        assets := rollBackTo height disk.assets
        wallet := if walletTxs then rollBackTo height disk.wallet else disk.wallet } := by
  rw [Disk.writeAll_append, Disk.writeAll_flush _ rfl, Disk.writeAll_rollBack]

theorem mem_dirty_or_index {dirty index : List (List Block)} {entry : List Block}
    (hentry : entry ∈ dirty.reverse ++ index) : entry ∈ index ∨ entry ∈ dirty :=
  (List.mem_append.mp hentry).elim (fun hmem => .inr (List.mem_reverse.mp hmem)) .inl

theorem disconnectTip (hnode : node.Settled walletTxs) (hallows : 2 ≤ node.chainActive.length) :
    (node.step walletTxs .disconnectTip).Settled walletTxs := by
  have hne : node.chainActive ≠ [] := List.ne_nil_of_length_pos (by omega)
  have hroll : ∀ blocks, blocks = node.chainActive →
      rollBackTo (height node.chainActive - 1) blocks = node.chainActive.dropLast := by
    rintro _ rfl
    rw [height_dropLast hne]
    exact rollBackTo_of_prefix (List.dropLast_prefix _)
  have hdisk : (node.step walletTxs .disconnectTip).disk = _ :=
    writeAll_disconnectTip node.disk node.setDirtyBlockIndex node.chainActive.dropLast
      (height node.chainActive - 1)
  refine ⟨?_, ⟨?_, ?_, fun hwallet => ?_⟩, fun entry hentry hinit => ?_, fun entry hentry => ?_⟩
  · rw [hdisk]
    rfl
  · rw [hdisk]
    exact hroll _ hnode.holds.permissions
  · rw [hdisk]
    exact hroll _ hnode.holds.assets
  · rw [hdisk]
    rw [if_pos hwallet]
    exact hroll _ (hnode.holds.wallet hwallet)
  · rw [hdisk]
    exact List.mem_append_right _
      (hnode.indexed entry hentry (hinit.trans (List.dropLast_prefix _)))
  rcases hentry with hentry | hentry
  · rw [hdisk] at hentry
    exact hnode.proper entry (mem_dirty_or_index hentry)
  cases hentry

/-- An allowed operation leaves a node at rest. -/
theorem step (hnode : node.Settled walletTxs) {op : Op Block} (hallows : node.Allows op) :
    (node.step walletTxs op).Settled walletTxs := by
  cases op with
  | addToBlockIndex entry =>
    refine ⟨hnode.best, hnode.holds, hnode.indexed, fun other hother => ?_⟩
    rcases hother with hother | hother
    · exact hnode.proper other (.inl hother)
    rcases List.mem_cons.mp hother with rfl | hother
    · exact hallows.1
    · exact hnode.dirty_proper other hother
  | connectTip block => exact hnode.connectTip hallows
  | disconnectTip => exact hnode.disconnectTip hallows
  | flushStateToDisk mode cacheFull intervalOver =>
    cases hflushes : flushes mode cacheFull intervalOver with
    | false =>
      have hsame : node.step walletTxs (.flushStateToDisk mode cacheFull intervalOver) = node := by
        simp only [Node.step, Node.writes, Startup.flushStateToDisk, hflushes, Bool.false_eq_true,
          if_false]
        rfl
      rwa [hsame]
    | true =>
      have hdisk : (node.step walletTxs (.flushStateToDisk mode cacheFull intervalOver)).disk = _ :=
        node.disk.writeAll_flush hflushes node.setDirtyBlockIndex node.chainActive
      refine ⟨?_, ?_, fun entry hentry hinit => ?_, fun entry hentry => ?_⟩
      · rw [hdisk]
        rfl
      · rw [hdisk]
        exact ⟨hnode.holds.permissions, hnode.holds.assets, hnode.holds.wallet⟩
      · rw [hdisk]
        exact List.mem_append_right _ (hnode.indexed entry hentry hinit)
      rcases hentry with hentry | hentry
      · rw [hdisk] at hentry
        exact hnode.proper entry (mem_dirty_or_index hentry)
      change entry ∈ (if flushes mode cacheFull intervalOver then [] else _) at hentry
      rw [if_pos hflushes] at hentry
      cases hentry

end Settled

end Node

/-! ## Crashes of one operation -/

namespace Disk

/-- A disk from which the start reaches a node at rest. -/
def Safe (walletTxs : Bool) (disk : Disk Block) : Prop :=
  disk.Recoverable walletTxs ∨ disk.Untouched walletTxs

end Disk

namespace Node.Settled

variable {node : Node Block}

theorem safe (hnode : node.Settled walletTxs) : node.disk.Safe walletTxs := by
  by_cases hchain : node.chainActive = []
  · exact .inr (hnode.untouched hchain)
  exact .inl (hnode.recoverable hchain)

theorem crash_index (hnode : node.Settled walletTxs) :
    Disk.AllCrashes (Disk.Safe walletTxs) node.disk (node.setDirtyBlockIndex.map .blockIndex) := by
  apply Disk.AllCrashes.blockIndex
  intro some hsome
  have hproper : ∀ entry ∈ some, entry ≠ [] :=
    fun entry hentry => hnode.dirty_proper entry (hsome entry hentry)
  exact hnode.safe.imp (fun hdisk => hdisk.index hproper) fun hdisk => hdisk.index hproper

theorem crash_flush (hnode : node.Settled walletTxs) (mode : FlushStateMode)
    (cacheFull intervalOver : Bool) : Disk.AllCrashes (Disk.Safe walletTxs) node.disk
      (node.writes walletTxs (.flushStateToDisk mode cacheFull intervalOver)) := by
  cases hflushes : flushes mode cacheFull intervalOver with
  | false =>
    simp only [Node.writes, Startup.flushStateToDisk, hflushes, Bool.false_eq_true, if_false]
    exact Disk.AllCrashes.nil hnode.safe
  | true =>
    have hafter := (hnode.step
      (show node.Allows (.flushStateToDisk mode cacheFull intervalOver) from trivial)).safe
    have hwrites : node.writes walletTxs (.flushStateToDisk mode cacheFull intervalOver) =
        node.setDirtyBlockIndex.map .blockIndex ++ [.coins node.chainActive] :=
      if_pos hflushes
    change Disk.Safe walletTxs (node.disk.writeAll (node.writes walletTxs _)) at hafter
    rw [hwrites, Disk.writeAll_append] at hafter
    rw [hwrites]
    have hindex := hnode.crash_index
    refine hindex.append (Disk.AllCrashes.cons ?_ (Disk.AllCrashes.nil hafter))
    have hall := hindex (node.setDirtyBlockIndex.map Write.blockIndex).length
    rwa [List.take_length] at hall

/-- Stores that hold the chain of the coins, or more, can be taken back. -/
theorem recoverable_of_ahead {disk : Disk Block} (hbest : disk.bestBlock ≠ [])
    (hpermissions : disk.bestBlock <+: disk.permissions) (hassets : disk.bestBlock <+: disk.assets)
    (hwallet : walletTxs = true → disk.bestBlock <+: disk.wallet)
    (hindexed : ∀ entry, entry ≠ [] → entry <+: disk.bestBlock → entry ∈ disk.blockIndex)
    (hproper : ∀ entry ∈ disk.blockIndex, entry ≠ []) : disk.Recoverable walletTxs where
  best := hbest
  permissions := hpermissions
  assets := hassets
  wallet := fun htxs => by
    refine ⟨fun hnil => hbest ?_, Or.inr (hwallet htxs)⟩
    have hinit := hwallet htxs
    rw [hnil] at hinit
    exact List.prefix_nil.mp hinit
  indexed := hindexed
  proper := hproper

/-- While the tip is disconnected the stores are ahead of the coins, on the same chain. -/
theorem crash_disconnectTip (hnode : node.Settled walletTxs)
    (hallows : 2 ≤ node.chainActive.length) :
    Disk.AllCrashes (Disk.Safe walletTxs) node.disk (node.writes walletTxs .disconnectTip) := by
  have hne : node.chainActive ≠ [] := List.ne_nil_of_length_pos (by omega)
  have hbest : node.chainActive.dropLast ≠ [] :=
    List.ne_nil_of_length_pos (by rw [List.length_dropLast]; omega)
  have hchain : node.chainActive.dropLast <+: node.chainActive := List.dropLast_prefix _
  have hroll : rollBackTo (height node.chainActive - 1) node.chainActive =
      node.chainActive.dropLast := by
    rw [height_dropLast hne]
    exact rollBackTo_of_prefix hchain
  have hafter := (hnode.disconnectTip hallows).safe
  change Disk.Safe walletTxs (node.disk.writeAll (node.writes walletTxs _)) at hafter
  have hpermissions := hnode.holds.permissions
  have hassets := hnode.holds.assets
  have hproper : ∀ entry ∈ node.setDirtyBlockIndex.reverse ++ node.disk.blockIndex, entry ≠ [] :=
    fun entry hentry => hnode.proper entry (mem_dirty_or_index hentry)
  have hindexed : ∀ entry, entry ≠ [] → entry <+: node.chainActive.dropLast →
      entry ∈ node.setDirtyBlockIndex.reverse ++ node.disk.blockIndex :=
    fun entry hentry hinit =>
      List.mem_append_right _ (hnode.indexed entry hentry (hinit.trans hchain))
  -- the disk behind the coins, with what the stores hold
  have hahead : ∀ permissions assets wallet : List Block,
      node.chainActive.dropLast <+: permissions → node.chainActive.dropLast <+: assets →
      (walletTxs = true → node.chainActive.dropLast <+: wallet) →
      Disk.Safe walletTxs ⟨node.setDirtyBlockIndex.reverse ++ node.disk.blockIndex,
        node.chainActive.dropLast, permissions, assets, wallet⟩ :=
    fun _ _ _ hpermissions hassets hwallet =>
      .inl (recoverable_of_ahead hbest hpermissions hassets hwallet hindexed hproper)
  have hwallet : walletTxs = true → node.chainActive.dropLast <+: node.disk.wallet := by
    intro htxs
    rw [hnode.holds.wallet htxs]
    exact hchain
  have hindex := hnode.crash_index
  have hwritten := hindex (node.setDirtyBlockIndex.map Write.blockIndex).length
  rw [List.take_length] at hwritten
  have hsplit : node.writes walletTxs .disconnectTip =
      node.setDirtyBlockIndex.map .blockIndex ++ .coins node.chainActive.dropLast ::
        rollBackWrites walletTxs (height node.chainActive - 1) := by
    change (node.setDirtyBlockIndex.map Write.blockIndex ++ [.coins node.chainActive.dropLast]) ++
      rollBackWrites walletTxs (height node.chainActive - 1) = _
    rw [List.append_assoc]
    rfl
  rw [hsplit] at hafter ⊢
  rw [Disk.writeAll_append] at hafter
  refine hindex.append (Disk.AllCrashes.cons hwritten ?_)
  rw [Disk.writeAll_blockIndex] at hafter ⊢
  have hfirst : node.chainActive.dropLast <+:
      rollBackTo (height node.chainActive - 1) node.disk.permissions := by
    rw [hpermissions, hroll]
  have hsecond : node.chainActive.dropLast <+:
      rollBackTo (height node.chainActive - 1) node.disk.assets := by
    rw [hassets, hroll]
  have hwhole : node.chainActive.dropLast <+: node.disk.assets := by rwa [hassets]
  refine Disk.AllCrashes.cons (hahead _ _ _ (by rwa [hpermissions]) hwhole hwallet) ?_
  refine Disk.AllCrashes.cons (hahead _ _ _ hfirst hwhole hwallet) ?_
  cases walletTxs with
  | false => exact Disk.AllCrashes.nil hafter
  | true =>
    refine Disk.AllCrashes.cons (hahead _ _ _ hfirst hsecond hwallet) ?_
    exact Disk.AllCrashes.nil hafter

/-- While a block is connected to another one the stores are ahead of the coins, and then the
wallet is behind them. -/
theorem crash_connectTip (hnode : node.Settled walletTxs) {block : Block}
    (hallows : node.Allows (.connectTip block)) (hne : node.chainActive ≠ []) :
    Disk.AllCrashes (Disk.Safe walletTxs) node.disk
      (node.writes walletTxs (.connectTip block)) := by
  have hafter := (hnode.connectTip hallows).safe
  change Disk.Safe walletTxs (node.disk.writeAll (node.writes walletTxs _)) at hafter
  have hbest := hnode.best
  have hpermissions : node.chainActive <+: node.disk.permissions ++ [block] := by
    rw [hnode.holds.permissions]
    exact List.prefix_append _ _
  have hassets : node.chainActive <+: node.disk.assets ++ [block] := by
    rw [hnode.holds.assets]
    exact List.prefix_append _ _
  have hwhole : node.chainActive <+: node.disk.assets := by
    rw [hnode.holds.assets]
  have hwallet : walletTxs = true → node.chainActive <+: node.disk.wallet := by
    intro htxs
    rw [hnode.holds.wallet htxs]
  -- the disk before the coins, with what the stores hold and more entries
  have hahead : ∀ (entries : List (List Block)) (permissions assets : List Block),
      (∀ entry ∈ entries, entry ≠ []) →
      node.chainActive <+: permissions → node.chainActive <+: assets →
      Disk.Safe walletTxs ⟨entries ++ node.disk.blockIndex, node.disk.bestBlock, permissions,
        assets, node.disk.wallet⟩ := by
    intro entries permissions assets hentries hpermissions hassets
    refine .inl (recoverable_of_ahead (by rwa [hbest]) (by rwa [hbest]) (by rwa [hbest])
      (by rwa [hbest]) (fun entry hentry hinit => ?_) fun entry hentry => ?_)
    · rw [hbest] at hinit
      exact List.mem_append_right _ (hnode.indexed entry hentry hinit)
    exact (List.mem_append.mp hentry).elim (hentries entry)
      fun hmem => hnode.proper entry (.inl hmem)
  have hdirty := hnode.dirtyAfterConnect_proper block
  let committed : Disk Block := { node.disk with
    permissions := node.disk.permissions ++ [block], assets := node.disk.assets ++ [block] }
  have hindex : Disk.AllCrashes (Disk.Safe walletTxs) committed
      ((node.dirtyAfterConnect block).map .blockIndex) :=
    Disk.AllCrashes.blockIndex fun some hsome => hahead some _ _
      (fun entry hentry => hdirty entry (hsome entry hentry)) hpermissions hassets
  have hwritten := hindex ((node.dirtyAfterConnect block).map Write.blockIndex).length
  rw [List.take_length] at hwritten
  have hsplit : node.writes walletTxs (.connectTip block) =
      .commitPermissions block :: .commitAssets block ::
        ((node.dirtyAfterConnect block).map .blockIndex ++ .coins (node.chainActive ++ [block]) ::
            if walletTxs then [.commitWallet block] else []) := by
    change ([Write.commitPermissions block, .commitAssets block] ++
      ((node.dirtyAfterConnect block).map .blockIndex ++ [.coins (node.chainActive ++ [block])])) ++
        _ = _
    rw [List.append_assoc, List.append_assoc]
    rfl
  rw [hsplit] at hafter ⊢
  have hnone : ∀ entry ∈ ([] : List (List Block)), entry ≠ [] :=
    fun _ hmem => absurd hmem List.not_mem_nil
  refine Disk.AllCrashes.cons hnode.safe (Disk.AllCrashes.cons
    (hahead [] _ _ hnone hpermissions hwhole) (hindex.append (Disk.AllCrashes.cons hwritten ?_)))
  change Disk.Safe walletTxs (committed.writeAll _) at hafter
  rw [Disk.writeAll_append] at hafter
  rw [Disk.writeAll_blockIndex] at hafter ⊢
  cases walletTxs with
  | false => exact Disk.AllCrashes.nil hafter
  | true =>
    refine Disk.AllCrashes.cons (.inl ?_) (Disk.AllCrashes.nil hafter)
    have hheld := hnode.holds.wallet rfl
    refine ⟨List.append_ne_nil_of_right_ne_nil _ (List.cons_ne_nil _ _), ?_, ?_, fun _ => ?_,
      indexed_append hnode.indexed (mem_written hallows), fun entry hentry => ?_⟩
    · change node.chainActive ++ [block] <+: node.disk.permissions ++ [block]
      rw [hnode.holds.permissions]
    · change node.chainActive ++ [block] <+: node.disk.assets ++ [block]
      rw [hnode.holds.assets]
    · refine ⟨by rwa [show _ = node.chainActive from hheld], .inl ?_⟩
      rw [hheld]
      exact List.prefix_append _ _
    rcases List.mem_append.mp hentry with hmem | hmem
    · exact hdirty entry (List.mem_reverse.mp hmem)
    exact hnode.proper entry (.inl hmem)

end Node.Settled

/-! ## The start -/

namespace Disk

variable {disk : Disk Block}

/-- Stores that are not behind the coins go back to them. -/
theorem Recoverable.rolledBack (hdisk : disk.Recoverable walletTxs)
    (hwallet : walletTxs = true → disk.bestBlock <+: disk.wallet) :
    Node.Settled walletTxs ⟨disk.writeAll (rollBackWrites walletTxs (height disk.bestBlock)), [],
      disk.bestBlock⟩ := by
  have hwritten := disk.writeAll_rollBack walletTxs (height disk.bestBlock)
  refine ⟨?_, ⟨?_, ?_, fun htxs => ?_⟩, ?_, fun entry hentry => ?_⟩
  · rw [hwritten]
  · rw [hwritten]
    exact rollBackTo_of_prefix hdisk.permissions
  · rw [hwritten]
    exact rollBackTo_of_prefix hdisk.assets
  · rw [hwritten]
    rw [if_pos htxs]
    exact rollBackTo_of_prefix (hwallet htxs)
  · rw [hwritten]
    exact hdisk.indexed
  rcases hentry with hentry | hentry
  · rw [hwritten] at hentry
    exact hdisk.proper entry hentry
  cases hentry

end Disk

namespace Node

structure Behind (node : Node Block) (wallet : List Block) : Prop where
  best : node.disk.bestBlock = node.chainActive
  permissions : node.chainActive <+: node.disk.permissions
  assets : node.chainActive <+: node.disk.assets
  held : node.disk.wallet = wallet
  wallet_ne : wallet ≠ []
  behind : wallet <+: node.chainActive
  indexed : ∀ entry, entry ≠ [] → entry <+: node.chainActive → entry ∈ node.disk.blockIndex
  proper : ∀ entry, node.knows entry → entry ≠ []

namespace Behind

variable {node : Node Block} {wallet : List Block}

/-- Disconnecting a tip takes permissions and entities back and leaves the wallet. -/
theorem disconnectTip (hnode : node.Behind wallet)
    (hlonger : wallet.length < node.chainActive.length) :
    (node.step true .disconnectTip).Behind wallet ∧
      (node.step true .disconnectTip).disk.permissions = node.chainActive.dropLast ∧
      (node.step true .disconnectTip).disk.assets = node.chainActive.dropLast := by
  have hne : node.chainActive ≠ [] := List.ne_nil_of_length_pos (by omega)
  have hdrop : node.chainActive.dropLast <+: node.chainActive := List.dropLast_prefix _
  have hwallet : wallet <+: node.chainActive.dropLast :=
    List.prefix_of_prefix_length_le hnode.behind hdrop (by rw [List.length_dropLast]; omega)
  have hroll : ∀ blocks, node.chainActive <+: blocks →
      rollBackTo (height node.chainActive - 1) blocks = node.chainActive.dropLast := by
    intro blocks hblocks
    rw [height_dropLast hne]
    exact rollBackTo_of_prefix (hdrop.trans hblocks)
  have hdisk : (node.step true .disconnectTip).disk = _ :=
    @Settled.writeAll_disconnectTip _ true node.disk node.setDirtyBlockIndex
      node.chainActive.dropLast (height node.chainActive - 1)
  have hpermissions : (node.step true .disconnectTip).disk.permissions =
      node.chainActive.dropLast := by
    rw [hdisk]
    exact hroll _ hnode.permissions
  have hassets : (node.step true .disconnectTip).disk.assets = node.chainActive.dropLast := by
    rw [hdisk]
    exact hroll _ hnode.assets
  refine ⟨⟨?_, ?_, ?_, ?_, hnode.wallet_ne, hwallet, fun entry hentry hinit => ?_,
    fun entry hentry => ?_⟩, hpermissions, hassets⟩
  · rw [hdisk]
    rfl
  · rw [hpermissions]
    exact List.prefix_rfl
  · rw [hassets]
    exact List.prefix_rfl
  · rw [hdisk, height_dropLast hne]
    rw [hnode.held]
    exact rollBackTo_of_length_le hwallet.length_le
  · rw [hdisk]
    exact List.mem_append_right _ (hnode.indexed entry hentry (hinit.trans hdrop))
  rcases hentry with hentry | hentry
  · rw [hdisk] at hentry
    exact hnode.proper entry (Settled.mem_dirty_or_index hentry)
  cases hentry

/-- Once as many tips are disconnected as the wallet is behind, the node is at rest. -/
theorem disconnectTips (hnode : node.Behind wallet) {count : ℕ}
    (hcount : node.chainActive.length = wallet.length + (count + 1)) :
    (Nat.iterate (fun node => node.step true .disconnectTip) (count + 1) node).Settled true := by
  induction count generalizing node with
  | zero =>
    obtain ⟨hnext, hpermissions, hassets⟩ := hnode.disconnectTip (by omega)
    have hchain : wallet = node.chainActive.dropLast := by
      apply hnext.behind.eq_of_length
      change wallet.length = node.chainActive.dropLast.length
      rw [List.length_dropLast, hcount, Nat.add_sub_cancel]
    exact ⟨hnext.best, ⟨hpermissions, hassets, fun _ => hnext.held.trans hchain⟩, hnext.indexed,
      hnext.proper⟩
  | succ count ih =>
    obtain ⟨hnext, -, -⟩ := hnode.disconnectTip (by omega)
    apply ih hnext
    change node.chainActive.dropLast.length = _
    rw [List.length_dropLast]
    omega

end Behind

end Node

section Load

variable [DecidableEq Block]

/-- Whatever is connected and disconnected then, the node stays at rest. -/
theorem settled_activateBestChain {node : Node Block} (hnode : node.Settled walletTxs)
    (choices : List (Op Block)) : (activateBestChain walletTxs choices node).Settled walletTxs := by
  unfold activateBestChain
  induction choices generalizing node with
  | nil => exact hnode
  | cons op choices ih =>
    rw [List.foldl_cons]
    split_ifs with hallows
    · exact ih (hnode.step hallows)
    exact ih hnode

omit [DecidableEq Block] in
/-- Going back to the tip changes nothing at rest. -/
theorem Node.Settled.rollBack {node : Node Block} (hnode : node.Settled walletTxs) :
    Node.Settled walletTxs { node with
      disk := node.disk.writeAll (rollBackWrites walletTxs (height node.chainActive)) } := by
  have hself := rollBackTo_of_prefix (@List.prefix_rfl _ node.chainActive)
  have hwritten := node.disk.writeAll_rollBack walletTxs (height node.chainActive)
  refine ⟨?_, ⟨?_, ?_, fun htxs => ?_⟩, ?_, fun entry hentry => ?_⟩
  · rw [hwritten]
    exact hnode.best
  · rw [hwritten]
    rw [hnode.holds.permissions, hself]
  · rw [hwritten]
    rw [hnode.holds.assets, hself]
  · rw [hwritten]
    rw [if_pos htxs, hnode.holds.wallet htxs, hself]
  · rw [hwritten]
    exact hnode.indexed
  rcases hentry with hentry | hentry
  · rw [hwritten] at hentry
    exact hnode.proper entry (.inl hentry)
  exact hnode.dirty_proper entry hentry

omit [DecidableEq Block] in
theorem height_le_of_prefix (hchain : chain <+: blocks) : height chain ≤ height blocks := by
  have hle := hchain.length_le
  unfold height
  omega

omit [DecidableEq Block] in
/-- When no store is behind the coins the chain is not shifted. -/
theorem Disk.Recoverable.height_le_blockToRollback {disk : Disk Block}
    (hdisk : disk.Recoverable walletTxs)
    (hwallet : walletTxs = true → disk.bestBlock <+: disk.wallet) :
    height disk.bestBlock ≤ blockToRollback walletTxs disk := by
  have hpermissions := height_le_of_prefix hdisk.permissions
  have hassets := height_le_of_prefix hdisk.assets
  unfold blockToRollback
  dsimp only
  split_ifs with htxs
  · have hheld := height_le_of_prefix (hwallet htxs)
    omega
  omega

omit [DecidableEq Block] in
theorem Disk.Recoverable.blockToRollback_eq {disk : Disk Block} (hdisk : disk.Recoverable true)
    (hbehind : disk.wallet.length < disk.bestBlock.length) :
    blockToRollback true disk = height disk.wallet := by
  have hpermissions := height_le_of_prefix hdisk.permissions
  have hassets := height_le_of_prefix hdisk.assets
  have hpos := List.length_pos_of_ne_nil (hdisk.wallet rfl).1
  unfold blockToRollback
  dsimp only
  rw [if_pos rfl]
  unfold height at *
  omega

/-- The wallet is behind: tips are disconnected until it is not. -/
theorem Disk.Recoverable.load_behind {disk : Disk Block} (hdisk : disk.Recoverable true)
    (hbehind : disk.wallet.length < disk.bestBlock.length) (choices : List (Op Block)) :
    (loadBlockIndexDB true choices disk).Settled true := by
  obtain ⟨hne, hchain⟩ := hdisk.wallet rfl
  have hinit : disk.wallet <+: disk.bestBlock := by
    rcases hchain with hchain | hchain
    · exact hchain
    · exact absurd hchain.length_le (by omega)
  have hmem : disk.bestBlock ∈ disk.blockIndex := hdisk.indexed _ hdisk.best List.prefix_rfl
  have htarget := hdisk.blockToRollback_eq hbehind
  have hlower : height disk.wallet < height disk.bestBlock := by
    unfold height
    omega
  have hcorrupted : corrupted true disk = true := by
    unfold corrupted
    simp [hlower]
  have hstart : Node.Behind ⟨disk, [], disk.bestBlock⟩ disk.wallet := by
    refine ⟨rfl, hdisk.permissions, hdisk.assets, rfl, hne, hinit, hdisk.indexed, ?_⟩
    intro entry hentry
    rcases hentry with hentry | hentry
    · exact hdisk.proper entry hentry
    · cases hentry
  have hcount : (height disk.bestBlock - height disk.wallet).toNat =
      disk.bestBlock.length - disk.wallet.length - 1 + 1 := by
    unfold height
    omega
  have hsettled : (setLastBlock true (blockToRollback true disk)
      ⟨disk, [], disk.bestBlock⟩).Settled true := by
    unfold setLastBlock
    rw [htarget]
    rw [hcount]
    apply hstart.disconnectTips
    dsimp only
    omega
  unfold loadBlockIndexDB
  rw [if_neg (not_not_intro hmem)]
  dsimp only
  rw [if_pos ⟨hcorrupted, by rw [htarget]; exact hlower⟩]
  exact (settled_activateBestChain hsettled choices).rollBack

/-- The start of a disk whose coins can be reached leaves a node at rest. -/
theorem settled_loadBlockIndexDB {disk : Disk Block} (hdisk : disk.Safe walletTxs)
    (choices : List (Op Block)) : (loadBlockIndexDB walletTxs choices disk).Settled walletTxs := by
  rcases hdisk with hdisk | hdisk
  · by_cases hwallet : walletTxs = true → disk.bestBlock <+: disk.wallet
    · have hmem : disk.bestBlock ∈ disk.blockIndex := hdisk.indexed _ hdisk.best List.prefix_rfl
      have hle := hdisk.height_le_blockToRollback hwallet
      unfold loadBlockIndexDB
      rw [if_neg (not_not_intro hmem)]
      dsimp only
      rw [if_neg fun hboth => absurd hboth.2 (Int.not_lt.mpr hle)]
      exact hdisk.rolledBack hwallet
    obtain ⟨rfl, hnot⟩ := Classical.not_imp.mp hwallet
    apply hdisk.load_behind
    by_contra hle
    rcases (hdisk.wallet rfl).2 with hinit | hinit
    · have heq := hinit.eq_of_length_le (Nat.not_lt.mp hle)
      rw [heq] at hnot
      exact hnot List.prefix_rfl
    · exact hnot hinit
  have hnotMem : disk.bestBlock ∉ disk.blockIndex := by
    rw [hdisk.best]
    exact fun hmem => hdisk.proper [] hmem rfl
  unfold loadBlockIndexDB
  rw [if_pos hnotMem]
  refine ⟨hdisk.best, hdisk.holds, fun entry hentry hinit => ?_, fun entry hentry => ?_⟩
  · exact absurd (List.prefix_nil.mp hinit) hentry
  rcases hentry with hentry | hentry
  · exact hdisk.proper entry hentry
  cases hentry

def Node.StartsChain (walletTxs : Bool) (node : Node Block) (op : Op Block) (count : ℕ) : Prop :=
  node.chainActive = [] ∧ (∃ block, op = .connectTip block) ∧ 0 < count ∧
    count < (node.writes walletTxs op).length

def Node.crash (walletTxs : Bool) (node : Node Block) (op : Op Block) (count : ℕ) : Disk Block :=
  node.disk.writeAll ((node.writes walletTxs op).take count)

omit [DecidableEq Block] in
/-- Any other stop leaves a disk from which the start reaches a node at rest. -/
theorem Node.Settled.crash_safe {node : Node Block} (hnode : node.Settled walletTxs)
    {op : Op Block} (hallows : node.Allows op) {count : ℕ}
    (hcount : ¬node.StartsChain walletTxs op count) :
    (node.crash walletTxs op count).Safe walletTxs := by
  cases op with
  | addToBlockIndex entry =>
    have hall : Disk.AllCrashes (Disk.Safe walletTxs) node.disk [] := .nil hnode.safe
    exact hall count
  | disconnectTip => exact hnode.crash_disconnectTip hallows count
  | flushStateToDisk mode cacheFull intervalOver =>
    exact hnode.crash_flush mode cacheFull intervalOver count
  | connectTip block =>
    by_cases hchain : node.chainActive = []
    · by_cases hzero : count = 0
      · subst hzero
        exact hnode.safe
      have hall : (node.writes walletTxs (.connectTip block)).length ≤ count := by
        by_contra hlt
        exact hcount ⟨hchain, ⟨block, rfl⟩, Nat.pos_of_ne_zero hzero, Nat.not_le.mp hlt⟩
      unfold Node.crash
      rw [List.take_of_length_le hall]
      exact (hnode.connectTip hallows).safe
    exact hnode.crash_connectTip hallows hchain count

/-- Nodes of runs with stops and starts, none of them while the chain starts. -/
inductive Reached (walletTxs : Bool) : Node Block → Prop
  | fresh : Reached walletTxs ⟨.empty, [], []⟩
  | step {node : Node Block} (hnode : Reached walletTxs node) (op : Op Block)
      (hallows : node.Allows op) : Reached walletTxs (node.step walletTxs op)
  | restart {node : Node Block} (hnode : Reached walletTxs node) (op : Op Block)
      (hallows : node.Allows op) (count : ℕ) (hcount : ¬node.StartsChain walletTxs op count)
      (choices : List (Op Block)) :
      Reached walletTxs (loadBlockIndexDB walletTxs choices (node.crash walletTxs op count))

theorem Reached.settled {node : Node Block} (hnode : Reached walletTxs node) :
    node.Settled walletTxs := by
  induction hnode with
  | fresh =>
    refine ⟨rfl, ⟨rfl, rfl, fun _ => rfl⟩, fun entry hentry hinit => ?_, fun entry hentry => ?_⟩
    · exact absurd (List.prefix_nil.mp hinit) hentry
    · rcases hentry with hentry | hentry <;> cases hentry
  | step _ op hallows ih => exact ih.step hallows
  | restart _ op hallows count hcount choices ih =>
    exact settled_loadBlockIndexDB (ih.crash_safe hallows hcount) choices

/-! ## The first block -/

theorem loadBlockIndexDB_of_nil {disk : Disk Block} (hbest : disk.bestBlock = [])
    (hproper : ∀ entry ∈ disk.blockIndex, entry ≠ []) (choices : List (Op Block)) :
    loadBlockIndexDB walletTxs choices disk = ⟨disk, [], []⟩ := by
  unfold loadBlockIndexDB
  rw [hbest, if_pos fun hmem => hproper [] hmem rfl]

omit [DecidableEq Block] in
/-- Until the coins are written the disk has no best block and holds the first one. -/
theorem Node.Settled.crash_before_coins {node : Node Block} (hnode : node.Settled walletTxs)
    (hchain : node.chainActive = []) (block : Block) :
    Disk.AllCrashes (fun disk => disk.bestBlock = [] ∧ disk.permissions = [block] ∧
        ∀ entry ∈ disk.blockIndex, entry ≠ []) (node.disk.write (.commitPermissions block))
      (.commitAssets block :: (node.dirtyAfterConnect block).map .blockIndex) := by
  have hbest : node.disk.bestBlock = [] := hnode.best.trans hchain
  have hpermissions : node.disk.permissions ++ [block] = [block] := by
    rw [hnode.holds.permissions, hchain]
    rfl
  have hproper : ∀ entry ∈ node.disk.blockIndex, entry ≠ [] :=
    fun entry hentry => hnode.proper entry (.inl hentry)
  refine Disk.AllCrashes.cons ⟨hbest, hpermissions, hproper⟩ (Disk.AllCrashes.blockIndex ?_)
  intro some hsome
  refine ⟨hbest, hpermissions, fun entry hentry => ?_⟩
  rcases List.mem_append.mp hentry with hmem | hmem
  · exact hnode.dirtyAfterConnect_proper block entry (hsome entry hmem)
  exact hproper entry hmem

/-- A first block that is missing in the wallet only stays missing there. -/
theorem not_holds_of_wallet_empty {disk : Disk Block} {block : Block}
    (hbest : disk.bestBlock = [block]) (hmem : [block] ∈ disk.blockIndex)
    (hpermissions : disk.permissions = [block]) (hassets : disk.assets = [block])
    (hwallet : disk.wallet = []) (choices : List (Op Block)) :
    ¬(loadBlockIndexDB true choices disk).disk.HoldsChain true
      (loadBlockIndexDB true choices disk).chainActive := by
  have htarget : blockToRollback true disk = 0 := by
    unfold blockToRollback
    rw [hpermissions, hassets, hwallet]
    rfl
  have hload : loadBlockIndexDB true choices disk =
      ⟨disk.writeAll (rollBackWrites true (height disk.bestBlock)), [], disk.bestBlock⟩ := by
    unfold loadBlockIndexDB
    rw [if_neg (not_not_intro (by rwa [hbest]))]
    dsimp only
    rw [if_neg fun hboth => absurd hboth.2 (by rw [htarget, hbest]; exact lt_irrefl (0 : ℤ))]
  rw [hload]
  intro hholds
  have hheld := hholds.wallet rfl
  rw [Disk.writeAll_rollBack, hbest] at hheld
  rw [hwallet] at hheld
  cases hheld

/-- Once the first block is in a store and the coins are not written, or the wallet is not, the
start does not make up for it. -/
theorem Node.Settled.not_holds_of_startsChain {node : Node Block}
    (hnode : node.Settled walletTxs) {op : Op Block} (hallows : node.Allows op) {count : ℕ}
    (hcount : node.StartsChain walletTxs op count) (choices : List (Op Block)) :
    ¬(loadBlockIndexDB walletTxs choices (node.crash walletTxs op count)).disk.HoldsChain walletTxs
      (loadBlockIndexDB walletTxs choices (node.crash walletTxs op count)).chainActive := by
  obtain ⟨hchain, ⟨block, rfl⟩, hpos, hlt⟩ := hcount
  let before : List (Write Block) :=
    .commitAssets block :: (node.dirtyAfterConnect block).map .blockIndex
  let after : List (Write Block) := if walletTxs then [.commitWallet block] else []
  have hwrites : node.writes walletTxs (.connectTip block) =
      .commitPermissions block :: (before ++ .coins (node.chainActive ++ [block]) :: after) := by
    change ([Write.commitPermissions block, .commitAssets block] ++
      ((node.dirtyAfterConnect block).map .blockIndex ++ [.coins (node.chainActive ++ [block])])) ++
        after = _
    rw [List.append_assoc, List.append_assoc]
    rfl
  obtain ⟨more, rfl⟩ := Nat.exists_eq_succ_of_ne_zero hpos.ne'
  have hbefore := hnode.crash_before_coins hchain block
  by_cases hmore : more ≤ before.length
  · have hdisk : node.crash walletTxs (.connectTip block) (more + 1) =
        (node.disk.write (.commitPermissions block)).writeAll (before.take more) := by
      unfold Node.crash
      rw [hwrites, List.take_succ_cons, List.take_append_of_le_length hmore]
      rfl
    obtain ⟨hbest, hpermissions, hproper⟩ := hbefore more
    rw [← hdisk] at hbest hpermissions hproper
    rw [loadBlockIndexDB_of_nil hbest hproper]
    intro hholds
    have hnil := hholds.permissions
    rw [hpermissions] at hnil
    cases hnil
  have hlength : ∀ (first second : List (Write Block)) (write other : Write Block),
      (write :: (first ++ other :: second)).length = first.length + second.length + 2 := by
    intro first second write other
    rw [List.length_cons, List.length_append, List.length_cons]
    omega
  rw [hwrites, hlength] at hlt
  cases walletTxs with
  | false =>
    have hnone : after.length = 0 := rfl
    omega
  | true =>
    have hone : after.length = 1 := rfl
    have hlast : more = before.length + 1 := by omega
    have hadd : ∀ blocks, blocks = node.chainActive → blocks ++ [block] = [block] := by
      rintro _ rfl
      rw [hchain]
      rfl
    let final : Disk Block := {
      blockIndex := (node.dirtyAfterConnect block).reverse ++ node.disk.blockIndex
      bestBlock := node.chainActive ++ [block]
      permissions := node.disk.permissions ++ [block]
      assets := node.disk.assets ++ [block]
      wallet := node.disk.wallet }
    have hdisk : node.crash true (.connectTip block) (more + 1) = final := by
      unfold Node.crash
      rw [hwrites, List.take_succ_cons, hlast, List.take_length_add_append]
      refine (Disk.writeAll_append (node.disk.write (.commitPermissions block)) before _).trans ?_
      refine congrArg (fun disk => Disk.write disk (.coins (node.chainActive ++ [block])))
        (Disk.writeAll_blockIndex
          ((node.disk.write (.commitPermissions block)).write (.commitAssets block)) _)
    have hbest : final.bestBlock = [block] := hadd _ rfl
    have hpermissions : final.permissions = [block] := hadd _ hnode.holds.permissions
    have hassets : final.assets = [block] := hadd _ hnode.holds.assets
    have hwallet : final.wallet = [] := (hnode.holds.wallet rfl).trans hchain
    have hmem : [block] ∈ final.blockIndex := by
      rw [← hbest]
      exact Node.Settled.mem_written hallows
    rw [hdisk]
    exact not_holds_of_wallet_empty hbest hmem hpermissions hassets hwallet choices

end Load

/-! ## A chain of three blocks -/

def firstOps : List (Op ℕ) :=
  [.addToBlockIndex [0], .connectTip 0]

def forkOps : List (Op ℕ) :=
  firstOps ++ [.addToBlockIndex [0, 1], .connectTip 1, .addToBlockIndex [0, 1, 2],
    .connectTip 2, .addToBlockIndex [0, 3]]

def nodeAfter (ops : List (Op ℕ)) : Node ℕ :=
  activateBestChain true ops ⟨.empty, [], []⟩

theorem reached_activateBestChain {node : Node ℕ} (hnode : Reached true node)
    (ops : List (Op ℕ)) : Reached true (activateBestChain true ops node) := by
  unfold activateBestChain
  induction ops generalizing node with
  | nil => exact hnode
  | cons op ops ih =>
    rw [List.foldl_cons]
    split_ifs with hallows
    · exact ih (hnode.step op hallows)
    exact ih hnode

theorem reached_nodeAfter (ops : List (Op ℕ)) : Reached true (nodeAfter ops) :=
  reached_activateBestChain .fresh ops

end Amberchain.Startup
