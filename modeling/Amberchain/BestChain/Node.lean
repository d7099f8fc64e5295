import Amberchain.Base.OrderedSet
import Amberchain.BestChain.MostWork
import Amberchain.Permission.Types

/-!
# The block index of a node

Blocks arrive, chains are activated, and blocks are invalidated, reconsidered and banned:
what each of these does to the candidates and to the chain.
-/

namespace Amberchain.BestChain

open Permission (MC_PTP_MINE)

def BLOCK_VALID_TREE : ℕ := 2
def BLOCK_VALID_TRANSACTIONS : ℕ := 3
def BLOCK_VALID_SCRIPTS : ℕ := 5

/-- What does not change while the node runs: the protocol, whether it has a wallet, and
whether miners are checked beforehand. -/
structure NodeParams where
  multichain : Bool
  wallet : Bool
  precheckOff : Bool

/-- `mapBlockIndex` with its blocks, `chainActive`, `setBlockIndexCandidates`,
`setBannedTxBlocks` and `mapBlocksUnlinked`; and the blocks that `ConnectTip` was called for,
each with whether its data were there and it was not marked as failed. -/
structure Node (B : Type) where
  tree : BlockTree B
  selection : Selection B
  validity : B → ℕ
  txCount : B → ℕ
  index : List B
  tip : Option B
  locked : Option B
  banned : List B
  unlinked : List (B × B)
  nextSequenceId : ℕ
  attempts : List (B × Bool)

/-- What permissions and wallet know about the signer of a block. -/
structure Signer where
  canMine : ℕ
  hasKey : Bool
  minerCount : ℤ
  activeMinerCount : ℤ

/-- What connecting a block comes to.  A block that is invalid may be so because its data are
damaged; a failure of the system has a reason, which may be empty. -/
inductive ConnectResult where
  | connected (upgradeRequired : Bool)
  | invalid
  | corrupted
  | failed (reason : String)
deriving DecidableEq

structure Validation (B : Type) where
  connect : B → ConnectResult
  disconnect : B → Option String

/-- What a round of `ActivateBestChain` meets: whether the wallet has an address that can
mine, before and after the step, and whether an upgrade is required. -/
structure Round (B : Type) where
  mineBefore : Bool
  mineAfter : Bool
  upgradeRequired : Bool
  verify : Selection B → B → Bool × (B → Bool)
  choices : ℕ
  validation : Validation B

/-- The state after a function that may fail, with the reason; the process stops at failed
assertions and null pointers. -/
inductive Done (B : Type) where
  | ok (node : Node B)
  | error (reason : String) (node : Node B)
  | stopped

def Done.left {B : Type} : Done B → Option (Node B)
  | .ok node => some node
  | .error _ node => some node
  | .stopped => none

namespace Node

variable {B : Type} [LinearOrder B] (params : NodeParams) (node : Node B)

local instance lawfulBlocks : LawfulBEq B := inferInstance

/-- The block is in `chainActive`. -/
def contains (block : B) : Bool :=
  match node.tip with
  | none => false
  | some tip => node.tree.getAncestor tip (node.tree.height block) = some block

/-- The number of blocks in `chainActive`. -/
def chainLength : ℕ :=
  match node.tip with
  | none => 0
  | some tip => node.tree.height tip + 1

def env (verify : Selection B → B → Bool × (B → Bool)) : ChainEnv B where
  tree := node.tree
  multichain := params.multichain
  active := node.contains
  locked := node.locked
  banned := fun block => block ∈ node.banned
  precheckOff := params.precheckOff
  verify := verify

/-- `CBlockIndexWorkComparator` on the fields as they are. -/
def less (first second : B) : Bool :=
  (node.env params fun _ _ => (false, fun _ => false)).less first second

def isValid (upTo : ℕ) (block : B) : Bool :=
  !node.selection.failed block && decide (upTo ≤ node.validity block)

def raiseValidity (upTo : ℕ) (block : B) : Node B :=
  if node.selection.failed block then node
  else { node with
    validity := Function.update node.validity block (max (node.validity block) upTo) }

def markFailedValid (block : B) : Node B :=
  { node with
    selection := { node.selection with
      failedValid := Function.update node.selection.failedValid block true } }

def markFailedChild (block : B) : Node B :=
  { node with
    selection := { node.selection with
      failedChild := Function.update node.selection.failedChild block true } }

/-- `nStatus &= ~BLOCK_FAILED_MASK` -/
def clearFailed (block : B) : Node B :=
  { node with
    selection := { node.selection with
      failedValid := Function.update node.selection.failedValid block false
      failedChild := Function.update node.selection.failedChild block false } }

def candidates : List B :=
  node.selection.candidates

def setCandidates (candidates : List B) : Node B :=
  { node with selection := { node.selection with candidates := candidates } }

/-- `setBlockIndexCandidates.insert` -/
def insertCandidate (block : B) : Node B :=
  node.setCandidates (OrderedSet.insert (node.less params) block node.candidates)

/-- `setBlockIndexCandidates.erase` -/
def eraseCandidate (block : B) : Node B :=
  node.setCandidates (OrderedSet.erase (node.less params) block node.candidates)

/-- `setBlockIndexCandidates.find` -/
def hasCandidate (block : B) : Bool :=
  OrderedSet.contains (node.less params) block node.candidates

/-- `PruneBlockIndexCandidates`; none when the assertion fails. -/
def pruneBlockIndexCandidates : Option (Node B) :=
  match node.tip with
  | none => none
  | some tip =>
    match node.candidates.dropWhile fun candidate => node.less params candidate tip with
    | [] => none
    | candidates => some (node.setCandidates candidates)

/-- The test by which `InvalidateBlock` and `ReconsiderBlock` choose what to insert: the block
is valid, linked, and better than the tip; none without a tip. -/
def betterThanTip (block : B) : Option Bool :=
  if node.isValid BLOCK_VALID_TRANSACTIONS block ∧ node.tree.chainTx block ≠ 0 then
    node.tip.map fun tip => node.less params tip block
  else some false

def addToBlockIndex (block : B) : Node B :=
  if block ∈ node.index then node
  else { node with index := node.index ++ [block] }.raiseValidity BLOCK_VALID_TREE block

/-- `CheckBranchForInvalidBlocks`, from the block before. -/
def branchFailed (block : B) : Bool :=
  match node.tree.pprev block with
  | none => false
  | some parent => (node.tree.path node.contains parent).any node.selection.failed

/-- `AcceptBlockHeader`: the header of a block whose parent is known and has not failed. -/
def acceptBlockHeader (block : B) : Node B :=
  match node.tree.pprev block with
  | none => node.addToBlockIndex block
  | some parent =>
    if parent ∉ node.index ∨ node.selection.failed parent ∨ node.branchFailed block then node
    else node.addToBlockIndex block

def setMining (block : B) (canMine : ℕ) (heightMinedByMe : ℤ) : Node B :=
  { node with
    tree := { node.tree with
      canMine := Function.update node.tree.canMine block canMine
      heightMinedByMe := Function.update node.tree.heightMinedByMe block heightMinedByMe } }

/-- The mining status of a new block: `nCanMine` and `nHeightMinedByMe`. -/
def miningStatus (signer : Signer) (block : B) : ℕ × ℤ :=
  let height : ℤ := node.tree.height block
  if ¬params.wallet then (signer.canMine, node.tree.heightMinedByMe block)
  else if signer.hasKey then
    (if signer.activeMinerCount < signer.minerCount then 0
      else
        match node.tree.pprev block with
        | some parent => node.tree.canMine parent
        | none => MC_PTP_MINE.toNat, height)
  else
    match node.tree.pprev block with
    | some parent =>
      let mined := node.tree.heightMinedByMe parent
      (if mined + signer.minerCount - signer.activeMinerCount > height then 0
        else node.tree.canMine parent, mined)
    | none => (0, node.tree.heightMinedByMe block)

def updateChainMiningStatus (signer : Signer) (block : B) : Node B :=
  if params.multichain then
    let status := node.miningStatus params signer block
    node.setMining block status.1 status.2
  else node

/-- `nChainTx` of the previous block. -/
def parentChainTx (block : B) : ℕ :=
  match node.tree.pprev block with
  | some parent => node.tree.chainTx parent
  | none => 0

def linkBlock (block : B) : Node B :=
  { node with
    tree := { node.tree with
      chainTx := Function.update node.tree.chainTx block
        (node.parentChainTx block + node.txCount block)
      sequenceId := Function.update node.tree.sequenceId block node.nextSequenceId }
    nextSequenceId := (node.nextSequenceId + 1) % 2 ^ 32 }

/-- The blocks of `mapBlocksUnlinked` that wait for a block. -/
def waiting (block : B) : List B :=
  (node.unlinked.filter fun entry => entry.1 = block).map Prod.snd

def forgetWaiting (block : B) : Node B :=
  { node with unlinked := node.unlinked.filter fun entry => entry.1 ≠ block }

/-- The loop of `ReceivedBlockTransactions` over the queue.  A round takes one block, and each
block in the queue has been in `mapBlocksUnlinked`. -/
def linkQueue : ℕ → List B → Node B → Node B
  | 0, _, node => node
  | _ + 1, [], node => node
  | rounds + 1, block :: queue, node =>
    let linked := (node.linkBlock block).insertCandidate params block
    linkQueue rounds (queue ++ linked.waiting block) (linked.forgetWaiting block)

def storeBlock (signer : Signer) (txCount : ℕ) (block : B) : Node B :=
  let received : Node B :=
    { node with
      tree := { node.tree with
        haveData := Function.update node.tree.haveData block true
        chainTx := Function.update node.tree.chainTx block 0 }
      txCount := Function.update node.txCount block txCount }
  (received.raiseValidity BLOCK_VALID_TRANSACTIONS block).updateChainMiningStatus params signer
    block

def parentLinked (block : B) : Bool :=
  match node.tree.pprev block with
  | none => true
  | some parent => node.tree.chainTx parent ≠ 0

def setWaiting (block : B) : Node B :=
  match node.tree.pprev block with
  | none => node
  | some parent =>
    if node.isValid BLOCK_VALID_TREE parent then
      { node with unlinked := node.unlinked ++ [(parent, block)] }
    else node

def receivedBlockTransactions (signer : Signer) (txCount : ℕ) (block : B) : Node B :=
  let node := node.storeBlock params signer txCount block
  if node.parentLinked block then linkQueue params (node.unlinked.length + 1) [block] node
  else node.setWaiting block

/-- `AcceptBlock` has the header, and does not have the block, which is not known to be
invalid. -/
def wanted (block : B) : Bool :=
  block ∈ node.index ∧ ¬node.selection.failed block ∧ ¬node.branchFailed block ∧
    ¬node.tree.haveData block

/-- A block arrives whose header is known.  `CheckBlock` refuses a block without transactions
and notes one with banned transactions; `AcceptBlock` checks the miner at the end. -/
def acceptBlock (signer : Signer) (txCount : ℕ) (hasBannedTx : Bool)
    (verify : Selection B → B → Bool × (B → Bool)) (block : B) : Node B :=
  if txCount = 0 then node
  else if hasBannedTx then
    if block ∈ node.banned then node else { node with banned := node.banned ++ [block] }
  else if ¬node.wanted block then node
  else
    let received := node.receivedBlockTransactions params signer txCount block
    let checked := (received.env params verify).verifyBlockMiner received.selection block
    let received : Node B := { received with selection := checked.2 }
    if checked.1 then received else received.markFailedValid block

/-- The loop of `FindFork`. -/
def forkFrom : ℕ → B → Option B
  | 0, _ => none
  | rounds + 1, block =>
    if node.contains block then some block
    else (node.tree.pprev block).bind (forkFrom rounds)

/-- `FindFork`: the last common block of a block's chain and the active chain. -/
def findFork (block : B) : Option B :=
  match node.tip with
  | none => none
  | some tip =>
    if node.tree.height block > node.tree.height tip then
      (node.tree.getAncestor block (node.tree.height tip)).bind
        (node.forkFrom (node.tree.height tip + 1))
    else node.forkFrom (node.tree.height block + 1) block

/-- `DisconnectTip`; the process stops when the first block is disconnected. -/
def disconnectTip (validation : Validation B) : Done B :=
  match node.tip with
  | none => .stopped
  | some tip =>
    match validation.disconnect tip with
    | some reason => .error reason node
    | none =>
      match node.tree.pprev tip with
      | none => .stopped
      | some parent => .ok { node with tip := some parent }

/-- `ConnectTip`: the result, and the node after it; none when the assertion fails.  A block
without data cannot be read. -/
def connectTip (validation : Validation B) (block : B) : Option (ConnectResult × Node B) :=
  if node.tree.pprev block ≠ node.tip then none
  else
    let ready := node.tree.haveData block && !node.selection.failed block
    let node : Node B := { node with attempts := node.attempts ++ [(block, ready)] }
    if ¬node.tree.haveData block then some (.failed "Failed to read block", node)
    else
      match validation.connect block with
      | .connected upgradeRequired =>
        some (.connected upgradeRequired,
          { node.raiseValidity BLOCK_VALID_SCRIPTS block with tip := some block })
      | .invalid => some (.invalid, (node.markFailedValid block).eraseCandidate params block)
      | .corrupted => some (.corrupted, node)
      | .failed reason => some (.failed reason, node)

/-- The loop of `ActivateBestChainStep` that disconnects down to the fork. -/
def disconnectTo (validation : Validation B) (fork : Option B) : ℕ → Node B → Done B
  | 0, node => .ok node
  | rounds + 1, node =>
    if node.tip = none ∨ node.tip = fork then .ok node
    else
      match node.disconnectTip validation with
      | .ok node => disconnectTo validation fork rounds node
      | other => other

def moreWork (oldTip : Option B) : Bool :=
  match oldTip, node.tip with
  | some old, some tip => node.tree.chainWork tip > node.tree.chainWork old
  | _, _ => true

/-- The loop of `ActivateBestChainStep` that connects, up to the first better tip; it takes
the blocks in portions of thirty-two, which makes no difference.  An invalid block ends the
step, which succeeds unless there is no chain. -/
def connectPath (validation : Validation B) (oldTip : Option B) : List B → Node B → Done B
  | [], node => .ok node
  | block :: path, node =>
    match node.connectTip params validation block with
    | none => .stopped
    | some (.connected upgradeRequired, node) =>
      match node.pruneBlockIndexCandidates params with
      | none => .stopped
      | some node =>
        if node.moreWork oldTip ∨ upgradeRequired then .ok node
        else connectPath validation oldTip path node
    | some (.failed reason, node) => .error reason node
    | some (_, node) => if node.tip = none then .error "" node else .ok node

def activateBestChainStep (validation : Validation B) (target : B) : Done B :=
  match node.disconnectTo validation (node.findFork target) node.chainLength with
  | .ok forked =>
    forked.connectPath params validation node.tip (node.tree.path node.contains target).reverse
  | other => other

/-- The tip's `nCanMine` by the wallet. -/
def refreshTip (mine : Bool) : Node B :=
  match node.tip with
  | none => node
  | some tip =>
    node.setMining tip (if mine then MC_PTP_MINE.toNat else 0) (node.tree.heightMinedByMe tip)

/-- The tip's `nHeightMinedByMe` from its parent, when it has none. -/
def inheritHeight : Node B :=
  match node.tip with
  | none => node
  | some tip =>
    match node.tree.pprev tip with
    | none => node
    | some parent =>
      if node.tree.heightMinedByMe tip = 0 then
        node.setMining tip (node.tree.canMine tip) (node.tree.heightMinedByMe parent)
      else node

def refreshBefore (mine : Bool) : Node B :=
  if params.wallet then (node.refreshTip mine).inheritHeight else node

/-- What a round of `ActivateBestChain` comes to: it is done, there is another round, or
`FindMostWorkChain` is still choosing. -/
inductive Activation (B : Type) where
  | done (result : Done B)
  | again (node : Node B)
  | choosing

def activateChosen (round : Round B) (chosen : B) : Activation B :=
  let canMine := node.tree.canMine chosen
  match node.activateBestChainStep params round.validation chosen with
  | .ok node =>
    if node.tip ≠ some chosen then .again node
    else if ¬params.wallet then .done (.ok node)
    else
      let node := node.refreshTip round.mineAfter
      if node.tree.canMine chosen ≠ canMine then .again node else .done (.ok node)
  | other => .done other

/-- One round of `ActivateBestChain`. -/
def activateRound (round : Round B) : Activation B :=
  let node := node.refreshBefore params round.mineBefore
  match (node.env params round.verify).findMostWorkChain round.choices node.selection with
  | .unfinished => .choosing
  | .assertionFailed => .done .stopped
  | .returned none selection => .done (.ok { node with selection := selection })
  | .returned (some chosen) selection =>
    let node : Node B := { node with selection := selection }
    if node.tip = some chosen then .done (.ok node)
    else if round.upgradeRequired ∧ node.findFork chosen = node.tip then .done (.ok node)
    else node.activateChosen params round chosen

def beforeStep (round : Round B) : Option (B × Node B) :=
  let node := node.refreshBefore params round.mineBefore
  match (node.env params round.verify).findMostWorkChain round.choices node.selection with
  | .returned (some chosen) selection =>
    let node : Node B := { node with selection := selection }
    if node.tip = some chosen ∨ round.upgradeRequired ∧ node.findFork chosen = node.tip then none
    else some (chosen, node)
  | _ => none

/-- The node after the step of a round, with the chosen block, when that is the tip now: its
mining status is about to be set. -/
def afterStep (round : Round B) : Option (B × Node B) :=
  let node := node.refreshBefore params round.mineBefore
  match (node.env params round.verify).findMostWorkChain round.choices node.selection with
  | .returned (some chosen) selection =>
    let node : Node B := { node with selection := selection }
    if node.tip = some chosen ∨ round.upgradeRequired ∧ node.findFork chosen = node.tip then none
    else
      match node.activateBestChainStep params round.validation chosen with
      | .ok node => if node.tip = some chosen ∧ params.wallet then some (chosen, node) else none
      | _ => none
  | _ => none

/-- `ActivateBestChain`, which may be interrupted between two rounds. -/
def activateBestChain : List (Round B) → Node B → Activation B
  | [], node => .again node
  | round :: rounds, node =>
    match node.activateRound params round with
    | .again node => activateBestChain rounds node
    | other => other

/-- The loop of `InvalidateBlock` that disconnects the block. -/
def invalidateActive (validation : Validation B) (block : B) : ℕ → Node B → Done B
  | 0, node => .ok node
  | rounds + 1, node =>
    match node.tip with
    | none => .ok node
    | some tip =>
      if ¬node.contains block then .ok node
      else
        match ((node.markFailedChild tip).eraseCandidate params tip).disconnectTip validation with
        | .ok node => invalidateActive validation block rounds node
        | other => other

/-- The loop of `InvalidateBlock` over the block index: for each block that is better than
the tip it inserts the invalid one. -/
def insertForBetter (block : B) : List B → Node B → Option (Node B)
  | [], node => some node
  | other :: rest, node => do
    if ← node.betterThanTip params other then
      insertForBetter block rest (node.insertCandidate params block)
    else insertForBetter block rest node

def invalidateBlock (validation : Validation B) (block : B) : Done B :=
  let marked := (node.markFailedValid block).eraseCandidate params block
  match marked.invalidateActive params validation block node.chainLength with
  | .ok node =>
    match insertForBetter params block node.index node with
    | none => .stopped
    | some node => .ok node
  | other => other

/-- The loop of `ReconsiderBlock` over the block index. -/
def reconsiderDescendants (block : B) : List B → Node B → Option (Node B)
  | [], node => some node
  | other :: rest, node =>
    if ¬node.isValid BLOCK_VALID_TRANSACTIONS other ∧
        node.tree.getAncestor other (node.tree.height block) = some block then do
      let node := node.clearFailed other
      if ← node.betterThanTip params other then
        reconsiderDescendants block rest (node.insertCandidate params other)
      else reconsiderDescendants block rest node
    else reconsiderDescendants block rest node

def reconsiderAncestors : ℕ → B → Node B → Node B
  | 0, _, node => node
  | rounds + 1, block, node =>
    let node := node.clearFailed block
    match node.tree.pprev block with
    | none => node
    | some parent => reconsiderAncestors rounds parent node

def reconsiderBlock (block : B) : Done B :=
  match reconsiderDescendants params block node.index node with
  | none => .stopped
  | some node => .ok (reconsiderAncestors (node.tree.height block + 1) block node)

/-- `SetBannedTxs` with a well-formed list: the blocks that were banned are candidates again. -/
def setBannedTxs : Node B :=
  let unbanned := node.banned.foldl (fun node block =>
    if block ∈ node.index ∧ ¬node.hasCandidate params block then node.insertCandidate params block
    else node) node
  { unbanned with banned := [] }

/-- What `SetLastBlock` answers: the error, and whether `*fNotFound` is set. -/
structure Answer (B : Type) where
  error : String
  notFound : Bool
  node : Node B

/-- The first loop of `SetLastBlock`, from the block down to the fork: what it refuses.  Each
round looks at the block that was asked for. -/
def refused (readable : Bool) (target : B) : List B → Option (String × Bool)
  | [] => none
  | block :: path =>
    if node.selection.failed target then some ("Block is invalid", false)
    else if ¬node.tree.haveData target then
      some ("Block is invalid, probably we have only header", true)
    else if block = target ∧ ¬readable then some ("Block not found", true)
    else refused readable target path

/-- The second loop of `SetLastBlock`, for some steps; none when it needs more. -/
def stepsTo (validation : Validation B) (target : B) : ℕ → Node B → Option (Done B)
  | steps, node =>
    if node.tip = some target then some (.ok node)
    else
      match steps with
      | 0 => none
      | steps + 1 =>
        match node.activateBestChainStep params validation target with
        | .ok node => stepsTo validation target steps node
        | other => some other

/-- The node that `ActivateBestChain` leaves, in as many rounds as it is given; none when the
process stops or no chain is chosen. -/
def Activation.left : Activation B → Option (Node B)
  | .done result => result.left
  | .again node => some node
  | .choosing => none

/-- `SetLastBlock` for a block; none when it needs more steps or the process stops.  After an
error the best chain is activated. -/
def setLastBlock (validation : Validation B) (readable : Bool) (rounds : List (Round B))
    (target : B) (steps : ℕ) : Option (Answer B) :=
  if target ∉ node.index then some ⟨"Block not found", true, node⟩
  else
    match node.refused readable target (node.tree.path node.contains target) with
    | some (error, notFound) => some ⟨error, notFound, node⟩
    | none =>
      match node.stepsTo params validation target steps with
      | some (.ok node) => some ⟨"", false, node.insertCandidate params target⟩
      | some (.error reason node) =>
        (activateBestChain params rounds node).left.map fun left => ⟨reason, false, left⟩
      | _ => none

/-- What the rest of the node asks of the block index. -/
inductive Op (B : Type) where
  | header (block : B)
  | block (signer : Signer) (txCount : ℕ) (hasBannedTx : Bool)
      (verify : Selection B → B → Bool × (B → Bool)) (block : B)
  | activate (rounds : List (Round B))
  | invalidate (validation : Validation B) (block : B)
  | reconsider (block : B)
  | banned
  | last (validation : Validation B) (readable : Bool) (rounds : List (Round B)) (target : B)
      (steps : ℕ)
  | prune

/-- The node after an operation; none when it does not come to an end. -/
def apply : Op B → Option (Node B)
  | .header block => some (node.acceptBlockHeader block)
  | .block signer txCount hasBannedTx verify block =>
    some (node.acceptBlock params signer txCount hasBannedTx verify block)
  | .activate rounds => (activateBestChain params rounds node).left
  | .invalidate validation block => (node.invalidateBlock params validation block).left
  | .reconsider block => (node.reconsiderBlock params block).left
  | .banned => some (node.setBannedTxs params)
  | .last validation readable rounds target steps =>
    (node.setLastBlock params validation readable rounds target steps).map Answer.node
  | .prune => node.pruneBlockIndexCandidates params

/-- The states that operations reach, each of which meets a condition where it starts. -/
inductive Reached (allowed : Node B → Op B → Prop) (start : Node B) : Node B → Prop where
  | start : Reached allowed start start
  | step {node next : Node B} (hnode : Reached allowed start node) (op : Op B)
      (hallowed : allowed node op) (hnext : node.apply params op = some next) :
      Reached allowed start next

def run (allowed : Node B → Op B → Prop) [∀ node op, Decidable (allowed node op)] :
    List (Op B) → Node B → Option (Node B)
  | [], node => some node
  | op :: ops, node =>
    if allowed node op then (node.apply params op).bind (run allowed ops) else none

theorem reached_of_run {params : NodeParams} {allowed : Node B → Op B → Prop}
    [∀ node op, Decidable (allowed node op)] {start : Node B} {ops : List (Op B)} :
    ∀ {node last : Node B}, Reached params allowed start node →
      run params allowed ops node = some last → Reached params allowed start last := by
  induction ops with
  | nil =>
    intro node last hnode hrun
    cases hrun
    exact hnode
  | cons op ops ih =>
    intro node last hnode hrun
    unfold run at hrun
    split at hrun
    · rename_i hallowed
      obtain ⟨next, hnext, hrest⟩ := Option.bind_eq_some_iff.mp hrun
      exact ih (.step hnode op hallowed hnext) hrest
    cases hrun

/-- `LoadBlockIndex` without a database: nothing is known yet. -/
def Fresh : Prop :=
  node.index = [] ∧ node.tip = none ∧ node.candidates = [] ∧ node.banned = [] ∧
    node.unlinked = [] ∧ ∀ block, node.tree.haveData block = false ∧
      node.tree.chainTx block = 0 ∧ node.validity block = 0 ∧ node.selection.failed block = false

end Node

end Amberchain.BestChain
