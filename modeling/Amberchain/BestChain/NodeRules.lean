import Amberchain.BestChain.MostWorkRounds
import Amberchain.BestChain.Node

/-!
# What the steps of a node keep

A property that connecting, disconnecting, pruning and marking a block as failed keep is kept
by the steps towards a chain, and by the rounds that choose one when choosing keeps it too.
-/

namespace Amberchain.BestChain

variable {B : Type}

def Done.All (property : Node B → Prop) : Done B → Prop
  | .ok node => property node
  | .error _ node => property node
  | .stopped => True

def Node.Activation.All (property : Node B → Prop) : Node.Activation B → Prop
  | .done result => result.All property
  | .again node => property node
  | .choosing => True

variable {result : Done B}

theorem Done.All.mono {property other : Node B → Prop}
    (hall : result.All property) (himp : ∀ node, property node → other node) :
    result.All other := by
  cases result with
  | ok node => exact himp node hall
  | error reason node => exact himp node hall
  | stopped => trivial

theorem Done.All.both {property other : Node B → Prop}
    (hall : result.All property) (hother : result.All other) :
    result.All fun node => property node ∧ other node := by
  cases result with
  | ok node => exact ⟨hall, hother⟩
  | error reason node => exact ⟨hall, hother⟩
  | stopped => trivial

theorem Node.Activation.All.mono {property other : Node B → Prop} {result : Node.Activation B}
    (hall : result.All property) (himp : ∀ node, property node → other node) :
    result.All other := by
  cases result with
  | done result => exact Done.All.mono hall himp
  | again node => exact himp node hall
  | choosing => trivial

namespace Node

variable [LinearOrder B] {params : NodeParams} {property : Node B → Prop} {node : Node B}

/-- What a step towards a chain does to the node, one thing at a time. -/
structure Kept (params : NodeParams) (property : Node B → Prop) : Prop where
  attempted : ∀ {node : Node B} (block : B), property node →
    property { node with
      attempts := node.attempts ++
        [(block, node.tree.haveData block && !node.selection.failed block)] }
  disconnected : ∀ {node : Node B} {tip parent : B}, property node → node.tip = some tip →
    node.tree.pprev tip = some parent → property { node with tip := some parent }
  connected : ∀ {node : Node B} {block : B}, property node → node.tree.pprev block = node.tip →
    node.tree.haveData block = true →
    property { node.raiseValidity BLOCK_VALID_SCRIPTS block with tip := some block }
  marked : ∀ {node : Node B} (block : B), property node →
    property ((node.markFailedValid block).eraseCandidate params block)
  pruned : ∀ {node next : Node B}, property node →
    node.pruneBlockIndexCandidates params = some next → property next

variable (hkept : Kept params property) (validation : Validation B)

include hkept

theorem Kept.disconnectTip (hnode : property node) :
    (node.disconnectTip validation).All property := by
  unfold Node.disconnectTip
  split
  · trivial
  rename_i tip htip
  split
  · exact hnode
  split
  · trivial
  rename_i parent hparent
  exact hkept.disconnected hnode htip hparent

theorem Kept.disconnectTo (fork : Option B) (rounds : ℕ) (hnode : property node) :
    (disconnectTo validation fork rounds node).All property := by
  induction rounds generalizing node with
  | zero => exact hnode
  | succ rounds ih =>
    unfold Node.disconnectTo
    split
    · exact hnode
    have htip := hkept.disconnectTip validation hnode
    cases hdone : node.disconnectTip validation with
    | ok next =>
      rw [hdone] at htip
      exact ih htip
    | error reason next =>
      rw [hdone] at htip
      exact htip
    | stopped => trivial

theorem Kept.connectTip {block : B} {result : ConnectResult} {next : Node B}
    (hnode : property node) (hresult : node.connectTip params validation block = some (result, next)) :
    property next := by
  unfold Node.connectTip at hresult
  split at hresult
  · cases hresult
  rename_i hparent
  have hattempted := hkept.attempted block hnode
  dsimp only at hresult
  split at hresult
  · cases hresult
    exact hattempted
  rename_i hdata
  cases hconnect : validation.connect block with
  | connected upgradeRequired =>
    rw [hconnect] at hresult
    cases hresult
    exact hkept.connected hattempted (not_not.mp hparent) (not_not.mp hdata)
  | invalid =>
    rw [hconnect] at hresult
    cases hresult
    exact hkept.marked block hattempted
  | corrupted =>
    rw [hconnect] at hresult
    cases hresult
    exact hattempted
  | failed reason =>
    rw [hconnect] at hresult
    cases hresult
    exact hattempted

theorem Kept.connectPath (oldTip : Option B) (path : List B) (hnode : property node) :
    (connectPath params validation oldTip path node).All property := by
  induction path generalizing node with
  | nil => exact hnode
  | cons block path ih =>
    unfold Node.connectPath
    cases hresult : node.connectTip params validation block with
    | none => trivial
    | some found =>
      obtain ⟨result, next⟩ := found
      have hnext := hkept.connectTip validation hnode hresult
      have hstopped : (if next.tip = none then Done.error "" next else .ok next).All property := by
        split
        · exact hnext
        · exact hnext
      cases result with
      | connected upgradeRequired =>
        dsimp only
        cases hprune : next.pruneBlockIndexCandidates params with
        | none => trivial
        | some pruned =>
          have hpruned := hkept.pruned hnext hprune
          dsimp only
          split
          · exact hpruned
          · exact ih hpruned
      | invalid => exact hstopped
      | corrupted => exact hstopped
      | failed reason => exact hnext

/-- A step keeps what its parts keep. -/
theorem Kept.step (target : B) (hnode : property node) :
    (node.activateBestChainStep params validation target).All property := by
  have hdone := hkept.disconnectTo validation (node.findFork target) node.chainLength hnode
  unfold activateBestChainStep
  cases hforked : Node.disconnectTo validation (node.findFork target) node.chainLength node with
  | ok forked =>
    rw [hforked] at hdone
    exact hkept.connectPath validation _ _ hdone
  | error reason next =>
    rw [hforked] at hdone
    exact hdone
  | stopped => trivial

/-- So do the steps of `SetLastBlock`. -/
theorem Kept.stepsTo {target : B} {steps : ℕ} (hnode : property node)
    (hresult : node.stepsTo params validation target steps = some result) :
    result.All property := by
  induction steps generalizing node with
  | zero =>
    unfold Node.stepsTo at hresult
    split at hresult
    · cases hresult
      exact hnode
    · cases hresult
  | succ steps ih =>
    unfold Node.stepsTo at hresult
    split at hresult
    · cases hresult
      exact hnode
    have hstep := hkept.step validation target hnode
    cases hdone : node.activateBestChainStep params validation target with
    | ok next =>
      rw [hdone] at hresult hstep
      exact ih hstep hresult
    | error reason next =>
      rw [hdone] at hresult hstep
      cases hresult
      exact hstep
    | stopped =>
      rw [hdone] at hresult
      cases hresult
      trivial

/-- The loop of `InvalidateBlock` that disconnects. -/
theorem Kept.invalidateActive {block : B}
    (hchild : ∀ {node : Node B} (tip : B), property node → node.tip = some tip →
      property ((node.markFailedChild tip).eraseCandidate params tip))
    (rounds : ℕ) (hnode : property node) :
    (invalidateActive params validation block rounds node).All property := by
  induction rounds generalizing node with
  | zero => exact hnode
  | succ rounds ih =>
    unfold Node.invalidateActive
    split
    · exact hnode
    rename_i tip htip
    split
    · exact hnode
    have hdone := hkept.disconnectTip validation (hchild tip hnode htip)
    cases hresult : ((node.markFailedChild tip).eraseCandidate params tip).disconnectTip
        validation with
    | ok next =>
      rw [hresult] at hdone
      exact ih hdone
    | error reason next =>
      rw [hresult] at hdone
      exact hdone
    | stopped => trivial

omit hkept in
/-- The loop of `InvalidateBlock` over the block index. -/
theorem insertForBetter_kept {block : B} (hinsert : ∀ {node : Node B} {better : B}, property node →
      node.betterThanTip params better = some true → property (node.insertCandidate params block)) :
    ∀ {blocks : List B} {node next : Node B}, property node →
      insertForBetter params block blocks node = some next → property next := by
  intro blocks
  induction blocks with
  | nil =>
    intro node next hnode hnext
    cases hnext
    exact hnode
  | cons other rest ih =>
    intro node next hnode hnext
    unfold insertForBetter at hnext
    cases hbetter : node.betterThanTip params other with
    | none =>
      rw [hbetter] at hnext
      cases hnext
    | some better =>
      rw [hbetter] at hnext
      cases better with
      | true => exact ih (hinsert hnode hbetter) hnext
      | false => exact ih hnode hnext

theorem Kept.invalidateBlock {block : B}
    (hchild : ∀ {node : Node B} (tip : B), property node → node.tip = some tip →
      property ((node.markFailedChild tip).eraseCandidate params tip))
    (hinsert : ∀ {node : Node B} {better : B}, property node →
      node.betterThanTip params better = some true → property (node.insertCandidate params block))
    (hnode : property node) : (node.invalidateBlock params validation block).All property := by
  have hdone : (Node.invalidateActive params validation block node.chainLength
      ((node.markFailedValid block).eraseCandidate params block)).All property :=
    hkept.invalidateActive validation hchild node.chainLength (hkept.marked block hnode)
  unfold Node.invalidateBlock
  dsimp only
  cases hresult : Node.invalidateActive params validation block node.chainLength
      ((node.markFailedValid block).eraseCandidate params block) with
  | ok next =>
    rw [hresult] at hdone
    dsimp only
    cases hinserted : insertForBetter params block next.index next with
    | none => trivial
    | some last => exact insertForBetter_kept hinsert hdone hinserted
  | error reason next =>
    rw [hresult] at hdone
    exact hdone
  | stopped => trivial

omit hkept

/-- A property holds behind a round when choosing, the step and the changes of the tip's mining
status lead to it. -/
theorem activateRound_all {round : Round B}
    (hchosen : ∀ {result : Option B} {selection : Selection B},
      ((node.refreshBefore params round.mineBefore).env params
        round.verify).findMostWorkChain round.choices
          (node.refreshBefore params round.mineBefore).selection = .returned result selection →
      let start : Node B := { node.refreshBefore params round.mineBefore with selection := selection }
      property start ∧ ∀ chosen, result = some chosen →
        node.beforeStep params round = some (chosen, start) →
          (start.activateBestChainStep params round.validation chosen).All property)
    (hafter : ∀ {chosen : B} {next : Node B}, node.afterStep params round = some (chosen, next) →
      next.tip = some chosen → property next → property (next.refreshTip round.mineAfter)) :
    (node.activateRound params round).All property := by
  unfold activateRound
  unfold beforeStep at hchosen
  unfold afterStep at hafter
  dsimp only at hchosen hafter ⊢
  cases hfound : ((node.refreshBefore params round.mineBefore).env params
      round.verify).findMostWorkChain round.choices
      (node.refreshBefore params round.mineBefore).selection with
  | unfinished => trivial
  | assertionFailed => trivial
  | returned result selection =>
    obtain ⟨hselected, hsteps⟩ := hchosen hfound
    rw [hfound] at hsteps hafter
    cases result with
    | none => exact hselected
    | some chosen =>
      dsimp only at hsteps hafter ⊢
      split
      · exact hselected
      rename_i hother
      split
      · exact hselected
      rename_i hupgrade
      rw [if_neg (not_or.mpr ⟨hother, hupgrade⟩)] at hsteps hafter
      have hstep := hsteps chosen rfl rfl
      unfold activateChosen
      cases hdone : activateBestChainStep params
          { node.refreshBefore params round.mineBefore with selection := selection }
          round.validation chosen with
      | ok next =>
        rw [hdone] at hstep hafter
        dsimp only at hafter ⊢
        split
        · exact hstep
        rename_i htip
        split
        · exact hstep
        rename_i hwallet
        rw [if_pos ⟨not_not.mp htip, not_not.mp hwallet⟩] at hafter
        have hnext := hafter rfl (not_not.mp htip) hstep
        split
        · exact hnext
        · exact hnext
      | error reason next =>
        rw [hdone] at hstep
        exact hstep
      | stopped => trivial

/-- A property holds behind all rounds when every round that may come keeps it. -/
theorem activateBestChain_all {good : List (Round B) → Node B → Prop}
    (hround : ∀ {round rounds} {node : Node B}, good (round :: rounds) node → property node →
      (node.activateRound params round).All property ∧
        ∀ next, node.activateRound params round = .again next → good rounds next)
    (rounds : List (Round B)) (hgood : good rounds node) (hnode : property node) :
    (activateBestChain params rounds node).All property := by
  induction rounds generalizing node with
  | nil => exact hnode
  | cons round rounds ih =>
    obtain ⟨hkeeps, hrest⟩ := hround hgood hnode
    unfold activateBestChain
    cases hresult : node.activateRound params round with
    | again next =>
      rw [hresult] at hkeeps
      exact ih (hrest next hresult) hkeeps
    | done result =>
      rw [hresult] at hkeeps
      exact hkeeps
    | choosing => trivial

end Node

theorem Done.All.left {property : Node B → Prop} {next : Node B}
    (hall : result.All property) (hleft : result.left = some next) : property next := by
  cases result with
  | ok node =>
    cases hleft
    exact hall
  | error reason node =>
    cases hleft
    exact hall
  | stopped => cases hleft

theorem Node.Activation.All.left {property : Node B → Prop} {result : Node.Activation B}
    {next : Node B} (hall : result.All property) (hleft : result.left = some next) :
    property next := by
  cases result with
  | done result => exact Done.All.left hall hleft
  | again node =>
    cases hleft
    exact hall
  | choosing => cases hleft

end Amberchain.BestChain
