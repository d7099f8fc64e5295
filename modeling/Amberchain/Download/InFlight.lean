import Amberchain.Base.LittleEndian
import Amberchain.BestChain.BlockTree
import Mathlib.Data.List.AList

/-!
# Blocks in flight

Which blocks are asked for from which peer: the lists of the peers, the map of their
entries, the counters, and what fills and empties them.
-/

namespace Amberchain.Download

open BestChain (BlockTree)

abbrev NodeId := ℕ

def MAX_BLOCKS_IN_TRANSIT_PER_PEER : ℤ := 16
def BLOCK_STALLING_TIMEOUT : ℤ := 2
def BLOCK_DOWNLOAD_WINDOW : ℕ := 1024

/-- `QueuedBlock`; times in microseconds. -/
structure QueuedBlock (B : Type) where
  hash : Hash256
  pindex : Option B
  nTime : ℤ
  nValidatedQueuedBefore : ℤ
  fValidatedHeaders : Bool

/-- `CNodeState`: what the download of blocks reads and writes.  An entry of the list comes
with the address of its list node, which is what an iterator holds. -/
structure CNodeState (B : Type) where
  pindexBestKnownBlock : Option B
  hashLastUnknownBlock : Hash256
  pindexLastCommonBlock : Option B
  nStallingSince : ℤ
  vBlocksInFlight : List (ℕ × QueuedBlock B)
  nBlocksInFlight : ℤ

def CNodeState.new {B : Type} : CNodeState B where
  pindexBestKnownBlock := none
  hashLastUnknownBlock := 0
  pindexLastCommonBlock := none
  nStallingSince := 0
  vBlocksInFlight := []
  nBlocksInFlight := 0

/-- `CNode`: the flags that `SendMessages` looks at. -/
structure CNode where
  fClient : Bool
  fDisconnect : Bool
  fLastIgnoreIncoming : Bool

def CNode.new : CNode where
  fClient := false
  fDisconnect := false
  fLastIgnoreIncoming := false

/-- The peers, the map of entries, the counter of validated entries, whether incoming
traffic is paused, and the address of the next list node. -/
structure Requests (B : Type) where
  nodes : NodeId → Option CNode
  mapNodeState : AList fun _ : NodeId => CNodeState B
  mapBlocksInFlight : Hash256 → Option (NodeId × ℕ)
  nQueuedValidatedHeaders : ℤ
  pausedIncoming : Bool
  nextNode : ℕ

/-- What `SendMessages` and the inventory messages see of the block index. -/
structure BlockView (B : Type) where
  tree : BlockTree B
  hash : B → Hash256
  validTree : B → Bool
  mapBlockIndex : Hash256 → Option B
  chainActive : List B
  setBannedTxBlocks : List Hash256
  pindexLockedBlock : Option B

def BlockView.tip {B : Type} (view : BlockView B) : Option B :=
  view.chainActive.getLast?

section Next

variable {B : Type} [DecidableEq B] (view : BlockView B)

def processBlockAvailability (state : CNodeState B) : CNodeState B :=
  if state.hashLastUnknownBlock ≠ 0 then
    match view.mapBlockIndex state.hashLastUnknownBlock with
    | some block =>
      if view.tree.chainWork block > 0 then
        let better := state.pindexBestKnownBlock.all fun best =>
          view.tree.chainWork block ≥ view.tree.chainWork best
        { state with
          pindexBestKnownBlock := if better then some block else state.pindexBestKnownBlock
          hashLastUnknownBlock := 0 }
      else state
    | none => state
  else state

def updateBlockAvailability (hash : Hash256) (state : CNodeState B) : CNodeState B :=
  let state := processBlockAvailability view state
  match (view.mapBlockIndex hash).filter fun block => view.tree.chainWork block > 0 with
  | some block =>
    if state.pindexBestKnownBlock.all fun best =>
        view.tree.chainWork block ≥ view.tree.chainWork best then
      { state with pindexBestKnownBlock := some block }
    else state
  | none => { state with hashLastUnknownBlock := hash }

/-- What the loops of `FindNextBlocksToDownload` change. -/
structure Fetch (B : Type) where
  pindexLastCommonBlock : Option B
  vBlocks : List B
  waitingfor : Option NodeId
  nodeStaller : Option NodeId

variable (inFlight : Hash256 → Option NodeId) (nodeid : NodeId) (count nWindowEnd : ℕ)

/-- The loop over `vToFetch`, and whether it returns from the function. -/
def scanBlocks : List B → Fetch B → Fetch B × Bool
  | [], fetch => (fetch, false)
  | pindex :: vToFetch, fetch =>
    if ¬view.validTree pindex then (fetch, true)
    else if view.hash pindex ∈ view.setBannedTxBlocks then (fetch, true)
    else if view.tree.haveData pindex then
      scanBlocks vToFetch
        (if view.tree.chainTx pindex ≠ 0 then { fetch with pindexLastCommonBlock := some pindex }
        else fetch)
    else
      match inFlight (view.hash pindex) with
      | none =>
        if view.tree.height pindex > nWindowEnd then
          (if fetch.vBlocks = [] ∧ fetch.waitingfor ≠ some nodeid then
              { fetch with nodeStaller := fetch.waitingfor }
            else fetch, true)
        else
          let fetch := { fetch with vBlocks := fetch.vBlocks ++ [pindex] }
          if fetch.vBlocks.length = count then (fetch, true) else scanBlocks vToFetch fetch
      | some holder =>
        scanBlocks vToFetch
          (if fetch.waitingfor = none then { fetch with waitingfor := some holder } else fetch)

/-- The loop over the heights: each round takes the next ancestors of the best known block,
at least 128 of them where there are as many. -/
def fetchRounds (best : B) (nMaxHeight walkHeight : ℕ) (fetch : Fetch B) : Fetch B :=
  if _hbelow : walkHeight < nMaxHeight then
    let nToFetch := min (nMaxHeight - walkHeight) (max (count - fetch.vBlocks.length) 128)
    let vToFetch := (List.range nToFetch).filterMap fun i =>
      view.tree.getAncestor best (walkHeight + 1 + i)
    match scanBlocks view inFlight nodeid count nWindowEnd vToFetch fetch with
    | (fetch, true) => fetch
    | (fetch, false) => fetchRounds best nMaxHeight (walkHeight + nToFetch) fetch
  else fetch
termination_by nMaxHeight - walkHeight
decreasing_by omega

def lockedBest (pindexBestKnownBlock : Option B) : Option (Option B) :=
  match pindexBestKnownBlock, view.pindexLockedBlock with
  | some best, some locked => do
    let common ← view.tree.lastCommonAncestor best locked
    return some (if common ≠ locked then common else best)
  | best, _ => some best

/-- `FindNextBlocksToDownload`: the peer afterwards, the blocks to ask for and the peer that
stalls; none when the chain has no tip or two blocks have no common ancestor. -/
def findNextBlocksToDownload (state : CNodeState B) :
    Option (CNodeState B × List B × Option NodeId) := do
  if count = 0 then return (state, [], none)
  let state := processBlockAvailability view state
  match ← lockedBest view state.pindexBestKnownBlock with
  | none => return (state, [], none)
  | some best =>
    let tip ← view.tip
    if view.tree.chainWork best < view.tree.chainWork tip then return (state, [], none)
    let guess := view.chainActive[min (view.tree.height best) (view.chainActive.length - 1)]?
    let common ← view.tree.lastCommonAncestor (← state.pindexLastCommonBlock <|> guess) best
    let state := { state with pindexLastCommonBlock := some common }
    if common = best then return (state, [], none)
    let nWindowEnd := view.tree.height common + BLOCK_DOWNLOAD_WINDOW
    let nMaxHeight := min (view.tree.height best) (nWindowEnd + 1)
    let fetch := fetchRounds view inFlight nodeid count nWindowEnd best nMaxHeight
      (view.tree.height common) ⟨some common, [], none, none⟩
    return ({ state with pindexLastCommonBlock := fetch.pindexLastCommonBlock }, fetch.vBlocks,
      fetch.nodeStaller)

end Next

section Plain

variable {B : Type} (view : BlockView B) (inFlight : Hash256 → Option NodeId) (nodeid : NodeId)
variable (count nWindowEnd : ℕ)

/-- The blocks of a path to ask for: those without data that nobody was asked for, up to the end
of the window and in front of any that is invalid or banned. -/
def wanted (path : List B) : List B :=
  ((path.takeWhile fun block =>
      view.validTree block ∧ view.hash block ∉ view.setBannedTxBlocks).filter fun block =>
    ¬view.tree.haveData block ∧ inFlight (view.hash block) = none).takeWhile fun block =>
      view.tree.height block ≤ nWindowEnd

def pathAbove (best : B) (height blocks : ℕ) : List B :=
  (List.range blocks).filterMap fun i => view.tree.getAncestor best (height + 1 + i)

/-- The blocks that `FindNextBlocksToDownload` finds, without its portions. -/
def plainBlocks [DecidableEq B] (state : CNodeState B) : Option (List B) := do
  if count = 0 then return []
  let state := processBlockAvailability view state
  match ← lockedBest view state.pindexBestKnownBlock with
  | none => return []
  | some best =>
    let tip ← view.tip
    if view.tree.chainWork best < view.tree.chainWork tip then return []
    let guess := view.chainActive[min (view.tree.height best) (view.chainActive.length - 1)]?
    let common ← view.tree.lastCommonAncestor (← state.pindexLastCommonBlock <|> guess) best
    let height := view.tree.height common
    let nWindowEnd := height + BLOCK_DOWNLOAD_WINDOW
    let nMaxHeight := min (view.tree.height best) (nWindowEnd + 1)
    return (wanted view inFlight nWindowEnd
      (pathAbove view best height (nMaxHeight - height))).take count

theorem pathAbove_add (best : B) (height first rest : ℕ) : pathAbove view best height (first + rest) =
    pathAbove view best height first ++ pathAbove view best (height + first) rest := by
  simp [pathAbove, List.range_add, List.filterMap_map, Nat.add_assoc, Nat.add_left_comm]

theorem scanBlocks_append (first second : List B) (fetch : Fetch B) :
    scanBlocks view inFlight nodeid count nWindowEnd (first ++ second) fetch =
      match scanBlocks view inFlight nodeid count nWindowEnd first fetch with
      | (fetch, true) => (fetch, true)
      | (fetch, false) => scanBlocks view inFlight nodeid count nWindowEnd second fetch := by
  induction first generalizing fetch with
  | nil => rfl
  | cons block first ih =>
    rw [List.cons_append, scanBlocks, scanBlocks]
    cases inFlight (view.hash block) <;> simp only [ih] <;> split_ifs <;> rfl

/-- The portions make no difference. -/
theorem fetchRounds_eq_scanBlocks (best : B) (nMaxHeight height : ℕ) (fetch : Fetch B) :
    fetchRounds view inFlight nodeid count nWindowEnd best nMaxHeight height fetch =
      (scanBlocks view inFlight nodeid count nWindowEnd
        (pathAbove view best height (nMaxHeight - height)) fetch).1 := by
  fun_induction fetchRounds view inFlight nodeid count nWindowEnd best nMaxHeight height fetch with
  | case1 height fetch hbelow nToFetch vToFetch scanned hscan =>
    have hfetch : vToFetch = pathAbove view best height nToFetch := rfl
    rw [← Nat.add_sub_of_le (Nat.min_le_left _ _ : nToFetch ≤ nMaxHeight - height), pathAbove_add,
      scanBlocks_append, ← hfetch, hscan]
  | case2 height fetch hbelow nToFetch vToFetch scanned hscan ih =>
    have hfetch : vToFetch = pathAbove view best height nToFetch := rfl
    rw [ih, ← Nat.add_sub_of_le (Nat.min_le_left _ _ : nToFetch ≤ nMaxHeight - height),
      pathAbove_add, scanBlocks_append, ← hfetch, hscan, Nat.sub_sub]
  | case3 height fetch hbelow =>
    rw [Nat.sub_eq_zero_of_le (not_lt.mp hbelow)]
    rfl

theorem scanBlocks_vBlocks (path : List B) (fetch : Fetch B) (hroom : fetch.vBlocks.length < count) :
    (scanBlocks view inFlight nodeid count nWindowEnd path fetch).1.vBlocks =
      fetch.vBlocks ++ (wanted view inFlight nWindowEnd path).take (count - fetch.vBlocks.length) := by
  fun_induction scanBlocks view inFlight nodeid count nWindowEnd path fetch with
  | case1 fetch => simp [wanted]
  | case2 block path fetch hvalid => simp [wanted, hvalid]
  | case3 block path fetch hvalid hbanned => simp [wanted, List.takeWhile_cons_of_neg, hbanned]
  | case4 block path fetch hvalid hbanned hdata ih =>
    rw [apply_ite Fetch.vBlocks, ite_self] at ih
    simp_all [wanted]
  | case5 block path fetch hvalid hbanned hdata hflight hheight =>
    rw [apply_ite Fetch.vBlocks, ite_self]
    simp_all [wanted, hheight.not_ge]
  | case6 block path fetch hvalid hbanned hdata hflight hheight next hfull =>
    have hlast : count - fetch.vBlocks.length = 1 := by simp [next] at hfull; omega
    simp_all [wanted, next]
  | case7 block path fetch hvalid hbanned hdata hflight hheight next hfull ih =>
    have hlength : next.vBlocks.length = fetch.vBlocks.length + 1 := List.length_append
    have hmore : count - fetch.vBlocks.length = count - next.vBlocks.length + 1 := by omega
    rw [ih (by omega), hmore]
    simp_all [wanted, next]
  | case8 block path fetch hvalid hbanned hdata holder hflight ih =>
    rw [apply_ite Fetch.vBlocks, ite_self] at ih
    simp_all [wanted]

/-- `FindNextBlocksToDownload` asks for what the plain search finds. -/
theorem findNextBlocksToDownload_plain [DecidableEq B] (state : CNodeState B) :
    (findNextBlocksToDownload view inFlight nodeid count state).map (fun found => found.2.1) =
      plainBlocks view inFlight count state := by
  rw [findNextBlocksToDownload, plainBlocks]
  split_ifs with hcount
  · rfl
  simp only [Option.bind_eq_bind, Option.pure_def, Option.map_bind, Function.comp_def]
  congr 1
  funext best
  cases best with
  | none => rfl
  | some best =>
    simp only [Option.map_bind, Function.comp_def, apply_ite (Option.map _), Option.map_some,
      fetchRounds_eq_scanBlocks, scanBlocks_vBlocks view inFlight nodeid count _ _ ⟨_, [], _, _⟩
        (Nat.pos_of_ne_zero hcount), List.nil_append]
    congr! 7 with tip _ _ start _ common
    split_ifs with hsame
    · rw [hsame, show min _ _ - _ = 0 by omega]
      exact congrArg some List.take_nil.symm
    rfl

end Plain

namespace Requests

variable {B : Type}

def initial : Requests B where
  nodes := fun _ => none
  mapNodeState := ∅
  mapBlocksInFlight := fun _ => none
  nQueuedValidatedHeaders := 0
  pausedIncoming := false
  nextNode := 0

def setState (requests : Requests B) (nodeid : NodeId) (state : CNodeState B) : Requests B :=
  { requests with mapNodeState := requests.mapNodeState.insert nodeid state }

def setNode (requests : Requests B) (nodeid : NodeId) (node : CNode) : Requests B :=
  { requests with nodes := Function.update requests.nodes nodeid (some node) }

/-- `mapBlocksInFlight.erase` of the hash of every entry. -/
def eraseEntries (requests : Requests B) (entries : List (ℕ × QueuedBlock B)) : Requests B :=
  { requests with
    mapBlocksInFlight := entries.foldl
      (fun mapBlocksInFlight entry => Function.update mapBlocksInFlight entry.2.hash none)
      requests.mapBlocksInFlight }

/-- `InitializeNode`, called for a new `CNode`. -/
def initializeNode (nodeid : NodeId) (requests : Requests B) : Requests B :=
  let requests := requests.setNode nodeid CNode.new
  match requests.mapNodeState.lookup nodeid with
  | some _ => requests
  | none => requests.setState nodeid CNodeState.new

/-- `FinalizeNode`; none when the peer is not there. -/
def finalizeNode (nodeid : NodeId) (requests : Requests B) : Option (Requests B) := do
  let state ← requests.mapNodeState.lookup nodeid
  let requests := requests.eraseEntries state.vBlocksInFlight
  return { requests with
    mapNodeState := requests.mapNodeState.erase nodeid
    nodes := Function.update requests.nodes nodeid none }

/-- `MarkBlockAsReceived`; none when the peer of the entry, or its list node, is not there. -/
def markBlockAsReceived (hash : Hash256) (requests : Requests B) : Option (Requests B) :=
  match requests.mapBlocksInFlight hash with
  | none => some requests
  | some (nodeid, it) => do
    let state ← requests.mapNodeState.lookup nodeid
    let entry ← state.vBlocksInFlight.find? (·.1 = it)
    let requests := requests.setState nodeid { state with
      vBlocksInFlight := state.vBlocksInFlight.eraseP (·.1 = it)
      nBlocksInFlight := state.nBlocksInFlight - 1
      nStallingSince := 0 }
    return { requests with
      nQueuedValidatedHeaders :=
        requests.nQueuedValidatedHeaders - entry.2.fValidatedHeaders.toNat
      mapBlocksInFlight := Function.update requests.mapBlocksInFlight hash none }

/-- `MarkBlockAsInFlight` at a time; none when the peer is not there. -/
def markBlockAsInFlight (nodeid : NodeId) (hash : Hash256) (pindex : Option B) (time : ℤ)
    (requests : Requests B) : Option (Requests B) := do
  let _ ← requests.mapNodeState.lookup nodeid
  let requests ← requests.markBlockAsReceived hash
  let state ← requests.mapNodeState.lookup nodeid
  let newentry : QueuedBlock B := ⟨hash, pindex, time, requests.nQueuedValidatedHeaders,
    pindex.isSome⟩
  let it := requests.nextNode
  let requests := requests.setState nodeid { state with
    vBlocksInFlight := state.vBlocksInFlight ++ [(it, newentry)]
    nBlocksInFlight := state.nBlocksInFlight + 1 }
  return { requests with
    nQueuedValidatedHeaders :=
      requests.nQueuedValidatedHeaders + newentry.fValidatedHeaders.toNat
    mapBlocksInFlight := Function.update requests.mapBlocksInFlight hash (some (nodeid, it))
    nextNode := it + 1 }

/-- What `SendMessages` sees: the block index, the clock, the clock when a block is asked for,
the block interval, and whether the first message of the peer is a complete block. -/
structure Sending (B : Type) where
  view : BlockView B
  nNow : ℤ
  timeMicros : B → ℤ
  targetSpacing : ℤ
  blockWaiting : Bool

variable [DecidableEq B] (sending : Sending B)

def timedOut (state : CNodeState B) : Bool :=
  match state.vBlocksInFlight with
  | [] => false
  | (_, front) :: _ =>
    front.nTime < sending.nNow - 500000 * sending.targetSpacing * (4 + 1) &&
      (!sending.blockWaiting || front.nTime <
          sending.nNow - 500000 * sending.targetSpacing * (4 + front.nValidatedQueuedBefore))

def resumeIncoming (nodeid : NodeId) (state : CNodeState B) (requests : Requests B) : Requests B :=
  (requests.eraseEntries state.vBlocksInFlight).setState nodeid
    { state with vBlocksInFlight := [] }

def markAll (nodeid : NodeId) (vToDownload : List B) (requests : Requests B) :
    Option (Requests B) :=
  vToDownload.foldlM (fun requests pindex =>
    requests.markBlockAsInFlight nodeid (sending.view.hash pindex) (some pindex)
      (sending.timeMicros pindex)) requests

def noteStaller (nodeid : NodeId) (staller : Option NodeId) (requests : Requests B) :
    Option (Requests B) := do
  let state ← requests.mapNodeState.lookup nodeid
  match staller with
  | none => return requests
  | some staller =>
    if state.nBlocksInFlight = 0 then
      let other ← requests.mapNodeState.lookup staller
      return if other.nStallingSince = 0 then
        requests.setState staller { other with nStallingSince := sending.nNow }
      else requests
    else return requests

def getData (nodeid : NodeId) (requests : Requests B) : Option (Requests B) := do
  let state ← requests.mapNodeState.lookup nodeid
  if state.nBlocksInFlight < MAX_BLOCKS_IN_TRANSIT_PER_PEER then
    let (state, vToDownload, staller) ← findNextBlocksToDownload sending.view
      (fun hash => (requests.mapBlocksInFlight hash).map Prod.fst) nodeid
      (MAX_BLOCKS_IN_TRANSIT_PER_PEER - state.nBlocksInFlight).toNat state
    let requests ← (requests.setState nodeid state).markAll sending nodeid vToDownload
    requests.noteStaller sending nodeid staller
  else return requests

/-- `SendMessages` when incoming traffic is not ignored. -/
def requestBlocks (nodeid : NodeId) (pto : CNode) (state : CNodeState B) (fDisconnect : Bool)
    (requests : Requests B) : Option (Requests B) := do
  let requests :=
    if pto.fLastIgnoreIncoming then requests.resumeIncoming nodeid state else requests
  let state ← requests.mapNodeState.lookup nodeid
  let fDisconnect := fDisconnect || timedOut sending state
  let sent := if fDisconnect ∨ pto.fClient then some requests else requests.getData sending nodeid
  sent.map fun requests =>
    requests.setNode nodeid { pto with fDisconnect := fDisconnect, fLastIgnoreIncoming := false }

/-- `SendMessages`: the part that has to do with blocks in flight. -/
def sendMessages (nodeid : NodeId) (requests : Requests B) : Option (Requests B) := do
  let pto ← requests.nodes nodeid
  let state ← requests.mapNodeState.lookup nodeid
  let ignore_incoming := requests.pausedIncoming
  let stalling := state.nStallingSince ≠ 0 ∧
    state.nStallingSince < sending.nNow - 1000000 * BLOCK_STALLING_TIMEOUT
  let fDisconnect := pto.fDisconnect || stalling
  if ignore_incoming then
    return requests.setNode nodeid
      { pto with fDisconnect := fDisconnect, fLastIgnoreIncoming := ignore_incoming }
  else requests.requestBlocks sending nodeid pto state fDisconnect

/-- What happens to the bookkeeping. -/
inductive Step (B : Type) where
  | initializeNode (nodeid : NodeId)
  | finalizeNode (nodeid : NodeId)
  | setFlags (nodeid : NodeId) (fClient fDisconnect : Bool)
  | updateBlockAvailability (view : BlockView B) (nodeid : NodeId) (hash : Hash256)
  | markBlockAsInFlight (nodeid : NodeId) (hash : Hash256) (pindex : Option B) (time : ℤ)
  | markBlockAsReceived (hash : Hash256)
  | pauseIncoming (paused : Bool)
  | sendMessages (sending : Sending B) (nodeid : NodeId)

def step : Step B → Requests B → Option (Requests B)
  | .initializeNode nodeid, requests => some (requests.initializeNode nodeid)
  | .finalizeNode nodeid, requests => requests.finalizeNode nodeid
  | .setFlags nodeid fClient fDisconnect, requests => do
    let node ← requests.nodes nodeid
    return requests.setNode nodeid { node with fClient := fClient, fDisconnect := fDisconnect }
  | .updateBlockAvailability view nodeid hash, requests => do
    let state ← requests.mapNodeState.lookup nodeid
    return requests.setState nodeid (Download.updateBlockAvailability view hash state)
  | .markBlockAsInFlight nodeid hash pindex time, requests =>
    requests.markBlockAsInFlight nodeid hash pindex time
  | .markBlockAsReceived hash, requests => requests.markBlockAsReceived hash
  | .pauseIncoming paused, requests => some { requests with pausedIncoming := paused }
  | .sendMessages sending nodeid, requests => requests.sendMessages sending nodeid

/-- A run from the start, with the states before its steps. -/
inductive Run : List (Requests B × Step B) → Requests B → Prop where
  | start : Run [] initial
  | step {history : List (Requests B × Step B)} {requests after : Requests B} {action : Step B}
      (hrun : Run history requests) (hstep : step action requests = some after) :
      Run (history ++ [(requests, action)]) after

end Requests

end Amberchain.Download
