import Amberchain.BestChain.CandidateOrder
import Mathlib.Order.Fin.Basic

/-!
# The order of the candidates over whole runs

In every state that a node reaches its candidates are in order, as long as whatever rewrites
the fields of a candidate leaves it in its place.  The wallet's permission to mine changes the
tip's fields while the tip is a candidate, and a sibling with as much work then overtakes it.
-/

namespace Amberchain.BestChain.Node

variable {B : Type} [LinearOrder B] {params : NodeParams} {node next : Node B}

/-- A block that arrives stays in its place, as do those that have waited for it. -/
def ReceivedStays (params : NodeParams) (signer : Signer) (txCount : ℕ) (block : B)
    (node : Node B) : Prop :=
  Stays params node (node.storeBlock params signer txCount block) block ∧
    ((node.storeBlock params signer txCount block).parentLinked block = true →
      LinksStay params ((node.storeBlock params signer txCount block).unlinked.length + 1) [block]
        (node.storeBlock params signer txCount block))

instance (signer : Signer) (txCount : ℕ) (block : B) (node : Node B) :
    Decidable (ReceivedStays params signer txCount block node) :=
  inferInstanceAs (Decidable (_ ∧ (_ → _)))

/-- `ActivateBestChain` after steps of `SetLastBlock` that failed. -/
def FailureStays (params : NodeParams) (rounds : List (Round B)) : Option (Done B) → Prop
  | some (.error _ next) => RoundsStay params rounds next
  | _ => True

instance (rounds : List (Round B)) : ∀ result : Option (Done B),
    Decidable (FailureStays params rounds result)
  | some (.error _ next) => decidableRoundsStay rounds next
  | some (.ok _) | some .stopped | none => .isTrue trivial

/-- Whatever rewrites the fields of a candidate leaves it in its place. -/
def KeepsPlaces (params : NodeParams) (node : Node B) : Op B → Prop
  | .block signer txCount hasBannedTx _ block =>
    txCount ≠ 0 → ¬hasBannedTx → node.wanted block = true →
      ReceivedStays params signer txCount block node
  | .activate rounds => RoundsStay params rounds node
  | .last validation _ rounds target steps =>
    FailureStays params rounds (node.stepsTo params validation target steps)
  | _ => True

instance decidableKeepsPlaces : ∀ (node : Node B) (op : Op B), Decidable (KeepsPlaces params node op)
  | node, .block signer txCount hasBannedTx _ block =>
    inferInstanceAs (Decidable (txCount ≠ 0 → ¬hasBannedTx → node.wanted block = true →
      ReceivedStays params signer txCount block node))
  | node, .activate rounds => decidableRoundsStay rounds node
  | node, .last validation _ rounds target steps =>
    inferInstanceAs (Decidable (FailureStays params rounds
      (node.stepsTo params validation target steps)))
  | _, .header _ | _, .invalidate _ _ | _, .reconsider _ | _, .banned | _, .prune => .isTrue trivial

/-- The candidates as a set that its comparator orders: it finds and erases every member, and
the last one is a maximum. -/
structure Ordered (params : NodeParams) (node : Node B) : Prop where
  increasing : node.Increasing params
  found : ∀ block, node.hasCandidate params block = true ↔ block ∈ node.candidates
  erased : ∀ block other, other ∈ (node.eraseCandidate params block).candidates ↔
    other ≠ block ∧ other ∈ node.candidates
  greatest : ∀ last ∈ node.candidates.getLast?, ∀ block ∈ node.candidates,
    node.less params last block = false

theorem Increasing.ordered (hnode : node.Increasing params) : Ordered params node where
  increasing := hnode
  found _ := OrderedSet.contains_iff (strict_less params node) hnode
  erased _ _ := OrderedSet.mem_erase (strict_less params node) hnode
  greatest _ hlast _ hmem :=
    OrderedSet.not_less_getLast (strict_less params node) hnode hlast hmem

theorem Increasing.of_selection {selection : Selection B} (hnode : node.Increasing params)
    (hsame : selection.candidates = node.candidates) :
    ({ node with selection := selection } : Node B).Increasing params := by
  unfold Increasing OrderedSet.Sorted at hnode ⊢
  have hcandidates : ({ node with selection := selection } : Node B).candidates =
      node.candidates := hsame
  rw [hcandidates]
  exact hnode

theorem Increasing.raiseValidity (hnode : node.Increasing params) (upTo : ℕ) (block : B) :
    (node.raiseValidity upTo block).Increasing params := by
  unfold Node.raiseValidity
  split
  · exact hnode
  exact hnode

theorem Increasing.acceptBlockHeader (hnode : node.Increasing params) (block : B) :
    (node.acceptBlockHeader block).Increasing params := by
  have hadded : (node.addToBlockIndex block).Increasing params := by
    unfold addToBlockIndex
    split
    · exact hnode
    have hindexed :
        ({ node with index := node.index ++ [block] } : Node B).Increasing params := hnode
    exact hindexed.raiseValidity _ _
  unfold Node.acceptBlockHeader
  split
  · exact hadded
  split
  · exact hnode
  exact hadded

theorem storeBlock_candidates (signer : Signer) (txCount : ℕ) (block : B) :
    (node.storeBlock params signer txCount block).candidates = node.candidates := by
  unfold storeBlock updateChainMiningStatus Node.raiseValidity
  dsimp only
  split <;> split <;> rfl

theorem keys_storeBlock {signer : Signer} {txCount : ℕ} {block other : B} (hother : other ≠ block) :
    (node.storeBlock params signer txCount block).keys other = node.keys other := by
  unfold storeBlock
  rw [keys_updateChainMiningStatus hother]
  unfold Node.raiseValidity
  split <;> rfl

theorem Increasing.receivedBlockTransactions {signer : Signer} {txCount : ℕ} {block : B}
    (hnode : node.Increasing params) (hstays : ReceivedStays params signer txCount block node) :
    (node.receivedBlockTransactions params signer txCount block).Increasing params := by
  have hstored : (node.storeBlock params signer txCount block).Increasing params :=
    (increasing_iff_stays hnode (storeBlock_candidates signer txCount block)
      fun _ hother => keys_storeBlock hother).mpr hstays.1
  unfold Node.receivedBlockTransactions
  dsimp only
  split
  · rename_i hlinked
    exact hstored.linkQueue (hstays.2 hlinked)
  unfold setWaiting
  split
  · exact hstored
  split
  · exact hstored
  exact hstored

theorem verifyBlockMiner_candidates (env : ChainEnv B) (selection : Selection B) (block : B) :
    (env.verifyBlockMiner selection block).2.candidates = selection.candidates := by
  unfold ChainEnv.verifyBlockMiner
  split <;> rfl

theorem Increasing.acceptBlock {signer : Signer} {txCount : ℕ} {hasBannedTx : Bool}
    {verify : Selection B → B → Bool × (B → Bool)} {block : B} (hnode : node.Increasing params)
    (hstays : txCount ≠ 0 → ¬hasBannedTx → node.wanted block = true →
      ReceivedStays params signer txCount block node) :
    (node.acceptBlock params signer txCount hasBannedTx verify block).Increasing params := by
  unfold Node.acceptBlock
  split
  · exact hnode
  rename_i hcount
  split
  · split
    · exact hnode
    · exact hnode
  rename_i hbanned
  split
  · exact hnode
  rename_i hwanted
  have hreceived := hnode.receivedBlockTransactions (hstays hcount hbanned (not_not.mp hwanted))
  have hchecked := hreceived.of_selection
    (verifyBlockMiner_candidates
      ((node.receivedBlockTransactions params signer txCount block).env params verify)
      (node.receivedBlockTransactions params signer txCount block).selection block)
  dsimp only
  split
  · exact hchecked
  exact hchecked

theorem Increasing.reconsiderDescendants {block : B} :
    ∀ {blocks : List B} {node next : Node B}, node.Increasing params →
      Node.reconsiderDescendants params block blocks node = some next → next.Increasing params := by
  intro blocks
  induction blocks with
  | nil =>
    intro node next hnode hnext
    cases hnext
    exact hnode
  | cons other rest ih =>
    intro node next hnode hnext
    unfold Node.reconsiderDescendants at hnext
    dsimp only at hnext
    split at hnext
    · have hcleared : (node.clearFailed other).Increasing params := hnode
      cases hbetter : (node.clearFailed other).betterThanTip params other with
      | none =>
        rw [hbetter] at hnext
        cases hnext
      | some better =>
        rw [hbetter] at hnext
        cases better with
        | true => exact ih (hcleared.insert other) hnext
        | false => exact ih hcleared hnext
    exact ih hnode hnext

theorem Increasing.reconsiderAncestors {rounds : ℕ} :
    ∀ {block : B} {node : Node B}, node.Increasing params →
      (Node.reconsiderAncestors rounds block node).Increasing params := by
  induction rounds with
  | zero => exact fun hnode => hnode
  | succ rounds ih =>
    intro block node hnode
    have hcleared : (node.clearFailed block).Increasing params := hnode
    unfold Node.reconsiderAncestors
    dsimp only
    split
    · exact hcleared
    exact ih hcleared

theorem Increasing.setBannedTxs (hnode : node.Increasing params) :
    (node.setBannedTxs params).Increasing params := by
  have hfold : ∀ (blocks : List B) {node : Node B}, node.Increasing params →
      (blocks.foldl (fun node block =>
        if block ∈ node.index ∧ ¬node.hasCandidate params block then
          node.insertCandidate params block
        else node) node).Increasing params := by
    intro blocks
    induction blocks with
    | nil => exact fun hnode => hnode
    | cons block blocks ih =>
      intro node hnode
      rw [List.foldl_cons]
      split
      · exact ih (hnode.insert block)
      · exact ih hnode
  exact hfold node.banned hnode

theorem Increasing.setLastBlock {validation : Validation B} {readable : Bool}
    {rounds : List (Round B)} {target : B} {steps : ℕ} {answer : Answer B}
    (hnode : node.Increasing params)
    (hstay : FailureStays params rounds (node.stepsTo params validation target steps))
    (hanswer : node.setLastBlock params validation readable rounds target steps = some answer) :
    answer.node.Increasing params := by
  unfold Node.setLastBlock at hanswer
  split at hanswer
  · cases hanswer
    exact hnode
  split at hanswer
  · cases hanswer
    exact hnode
  cases hsteps : node.stepsTo params validation target steps with
  | none =>
    rw [hsteps] at hanswer
    cases hanswer
  | some result =>
    have hresult := (kept_increasing params).stepsTo validation hnode hsteps
    rw [hsteps] at hanswer
    cases result with
    | ok next =>
      cases hanswer
      exact Increasing.insert hresult target
    | error reason next =>
      obtain ⟨left, hleft, rfl⟩ := Option.map_eq_some_iff.mp hanswer
      rw [hsteps] at hstay
      exact Activation.All.left (Increasing.rounds hresult hstay) hleft
    | stopped => cases hanswer

theorem Increasing.apply {op : Op B} (hnode : node.Increasing params)
    (hkeeps : KeepsPlaces params node op) (hnext : node.apply params op = some next) :
    next.Increasing params := by
  cases op with
  | header block =>
    cases hnext
    exact hnode.acceptBlockHeader block
  | block signer txCount hasBannedTx verify block =>
    cases hnext
    exact hnode.acceptBlock hkeeps
  | activate rounds => exact Activation.All.left (hnode.rounds hkeeps) hnext
  | invalidate validation block =>
    have hall : (node.invalidateBlock params validation block).All (Increasing params) :=
      (kept_increasing params).invalidateBlock validation
        (fun tip hnode _ => Increasing.erase hnode tip) (fun hnode _ => hnode.insert block) hnode
    exact Done.All.left hall hnext
  | reconsider block =>
    have hall : (node.reconsiderBlock params block).All (Increasing params) := by
      unfold reconsiderBlock
      cases hdone : Node.reconsiderDescendants params block node.index node with
      | none => trivial
      | some reconsidered => exact (Increasing.reconsiderDescendants hnode hdone).reconsiderAncestors
    exact Done.All.left hall hnext
  | banned =>
    cases hnext
    exact hnode.setBannedTxs
  | last validation readable rounds target steps =>
    obtain ⟨answer, hanswer, rfl⟩ := Option.map_eq_some_iff.mp hnext
    exact hnode.setLastBlock hkeeps hanswer
  | prune => exact hnode.prune hnext

/-- In every state of a run whose operations leave candidates in their places the candidates
are in order.  A node that starts has none, or has inserted those it loaded. -/
theorem candidates_ordered {start : Node B} (hstart : start.Increasing params)
    (hreached : Reached params (KeepsPlaces params) start node) : Ordered params node := by
  have hnode : node.Increasing params := by
    induction hreached with
    | start => exact hstart
    | step _ op hallowed hnext ih => exact ih.apply hallowed hnext
  exact hnode.ordered

def twoSiblings : BlockTree (Fin 3) where
  pprev block := if block = 0 then none else some 0
  height block := if block = 0 then 0 else 1
  chainWork block := if block = 0 then 1 else 2
  canMine _ := 0
  heightMinedByMe _ := 0
  sequenceId _ := 0
  haveData _ := false
  chainTx _ := 0
  height_pprev {child parent} hparent := by
    revert child parent
    decide
  height_root {root} hroot := by
    revert root
    decide
  root_unique {first second} hfirst hsecond := by
    revert first second
    decide

def newNode {B : Type} (tree : BlockTree B) : Node B where
  tree := tree
  selection := ⟨[], fun _ => false, fun _ => false, fun _ => false, 0⟩
  validity _ := 0
  txCount _ := 0
  index := []
  tip := none
  locked := none
  banned := []
  unlinked := []
  nextSequenceId := 1
  attempts := []

def withWallet : NodeParams := ⟨true, true, true⟩

def smooth (B : Type) (mineBefore mineAfter : Bool) : Round B :=
  ⟨mineBefore, mineAfter, false, fun _ _ => (true, fun _ => true), 10,
    ⟨fun _ => .connected false, fun _ => none⟩⟩

def arrives {B : Type} (block : B) : List (Op B) :=
  [.header block, .block ⟨256, false, 1, 1⟩ 1 false (fun _ _ => (true, fun _ => true)) block]

/-- The first block and one of the siblings are connected, and the wallet can mine. -/
def connectsOne : List (Op (Fin 3)) :=
  arrives 0 ++ [.activate [smooth _ true true, smooth _ true true]] ++
    arrives 1 ++ [.activate [smooth _ true true, smooth _ true true]]

/-- The other sibling arrives, and the wallet's permission changes with the chain. -/
def overtakes : List (Op (Fin 3)) :=
  connectsOne ++ arrives 2 ++ [.activate [smooth _ false true]]

theorem run_overtakes : ∃ node,
    run withWallet (fun _ _ => True) overtakes (newNode twoSiblings) = some node ∧
      node.candidates = [2, 1] ∧ node.less withWallet 2 1 = false := by
  have hrun : ((run withWallet (fun _ _ => True) overtakes (newNode twoSiblings)).map
      fun node => (node.candidates, node.less withWallet 2 1)) = some ([2, 1], false) := by
    decide +kernel
  obtain ⟨node, hnode, hshape⟩ := Option.map_eq_some_iff.mp hrun
  exact ⟨node, hnode, congrArg Prod.fst hshape, congrArg Prod.snd hshape⟩

/-- When the wallet may not mine on the tip but may on its sibling, the sibling is activated
while the old tip stays behind it in the set. -/
theorem candidates_not_ordered : ¬∀ {node : Node (Fin 3)},
    Reached withWallet (fun _ _ => True) (newNode twoSiblings) node → Ordered withWallet node := by
  intro hordered
  obtain ⟨node, hrun, hcandidates, hless⟩ := run_overtakes
  have hincreasing := (hordered (reached_of_run .start hrun)).increasing
  unfold Increasing OrderedSet.Sorted at hincreasing
  rw [hcandidates] at hincreasing
  have hlast := (List.pairwise_cons.mp hincreasing).1 1 (List.mem_singleton_self 1)
  rw [hless] at hlast
  cases hlast

/-- With the permission as it was the sibling stays behind the tip. -/
theorem candidates_ordered_permitted : ∃ node : Node (Fin 3), node.candidates = [2, 1] ∧
    Ordered withWallet node := by
  have hrun : ((run withWallet (KeepsPlaces withWallet)
      (connectsOne ++ arrives 2 ++ [.activate [smooth _ true true]]) (newNode twoSiblings)).map
      Node.candidates) = some [2, 1] := by
    decide +kernel
  obtain ⟨node, hnode, hcandidates⟩ := Option.map_eq_some_iff.mp hrun
  have hstart : (newNode twoSiblings).Increasing withWallet := List.Pairwise.nil
  exact ⟨node, hcandidates, candidates_ordered hstart (reached_of_run .start hnode)⟩

end Amberchain.BestChain.Node
