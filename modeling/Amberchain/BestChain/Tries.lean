import Amberchain.BestChain.LastBlockRuns

/-!
# The blocks that a node tries to connect

`FindMostWorkChain` returns a block only when all blocks between it and the active chain have
their data and are not marked as failed, and a step does not mark any of them before it is tried.
-/

namespace Amberchain.BestChain

variable {B : Type} [LinearOrder B]

namespace ChainEnv

variable {env : ChainEnv B} {state selection : Selection B} {chosen block : B}

omit [LinearOrder B] in
theorem ready_of_testPath {path : List B} :
    ∀ {above : List B}, env.testPath state above path = .valid →
      ∀ block ∈ path, env.tree.haveData block = true ∧ state.failed block = false ∧
        env.banned block = false := by
  induction path with
  | nil => exact fun _ block hblock => absurd hblock List.not_mem_nil
  | cons first path ih =>
    intro above hvalid
    unfold testPath at hvalid
    split at hvalid
    · cases hvalid
    rename_i hdata
    split at hvalid
    · cases hvalid
    rename_i hright
    rw [Bool.not_eq_true', Bool.not_eq_false, Bool.and_eq_true] at hdata
    rw [Bool.not_eq_true, Bool.or_eq_false_iff] at hright
    intro block hblock
    cases List.mem_cons.mp hblock with
    | inl heq =>
      rw [heq]
      exact ⟨hdata.1, hright⟩
    | inr hmem => exact ih hvalid block hmem

omit [LinearOrder B] in
theorem invalid_of_testPath {path all : List B} :
    ∀ {above : List B}, env.testPath state above path = .invalid all block →
      (state.failed block = true ∨ env.banned block = true) ∧ block ∈ path := by
  induction path with
  | nil => exact fun hinvalid => nomatch hinvalid
  | cons first path ih =>
    intro above hinvalid
    unfold testPath at hinvalid
    split at hinvalid
    · cases hinvalid
    split at hinvalid
    · rename_i hwrong
      cases hinvalid
      exact ⟨Bool.or_eq_true_iff.mp hwrong, (.head _)⟩
    exact (ih hinvalid).imp_right (List.mem_cons_of_mem _)

theorem ready_of_returned {rounds : ℕ}
    (hreturned : env.findMostWorkChain rounds state = .returned (some chosen) selection) :
    ∀ block ∈ env.tree.path env.active chosen,
      env.tree.haveData block = true ∧ selection.failed block = false ∧
        env.banned block = false := by
  induction rounds generalizing state with
  | zero => cases hreturned
  | succ rounds ih =>
    unfold findMostWorkChain at hreturned
    cases hcollect : env.collect state.candidates state [] with
    | none =>
      rw [hcollect] at hreturned
      cases hreturned
    | some collected =>
      obtain ⟨next, temp⟩ := collected
      rw [hcollect] at hreturned
      dsimp only at hreturned
      cases hbest : env.rbegin temp with
      | none =>
        rw [hbest] at hreturned
        cases hreturned
      | some best =>
        rw [hbest] at hreturned
        dsimp only at hreturned
        cases htest : env.testPath next [] (env.tree.path env.active best) with
        | valid =>
          rw [htest] at hreturned
          cases hreturned
          exact ready_of_testPath htest
        | assertionFailed =>
          rw [htest] at hreturned
          cases hreturned
        | invalid above block =>
          rw [htest] at hreturned
          exact ih hreturned

end ChainEnv

namespace Node

variable {params : NodeParams} {validation : Validation B} {node next start : Node B}
  {block target : B}

/-- Some more blocks have been tried, and all of them were ready. -/
def TriesReady (start next : Node B) : Prop :=
  ∃ tries, next.attempts = start.attempts ++ tries ∧ ∀ attempt ∈ tries, attempt.2 = true

omit [LinearOrder B] in
theorem TriesReady.of_eq (hsame : next.attempts = start.attempts) : TriesReady start next :=
  ⟨[], by rw [hsame, List.append_nil], nofun⟩

omit [LinearOrder B] in
theorem TriesReady.refl (node : Node B) : TriesReady node node :=
  .of_eq rfl

omit [LinearOrder B] in
theorem TriesReady.trans (hfirst : TriesReady start node) (hsecond : TriesReady node next) :
    TriesReady start next := by
  obtain ⟨tries, hnode, htries⟩ := hfirst
  obtain ⟨more, hnext, hmore⟩ := hsecond
  refine ⟨tries ++ more, by rw [hnext, hnode, List.append_assoc], fun attempt hmem => ?_⟩
  cases List.mem_append.mp hmem with
  | inl hin => exact htries attempt hin
  | inr hin => exact hmore attempt hin

theorem tried_kept (start : Node B) :
    Kept params fun next => start.attempts <+: next.attempts where
  attempted _ hnode := hnode.trans (List.prefix_append _ _)
  disconnected hnode _ _ := hnode
  connected {node block} hnode _ _ := by
    obtain ⟨validity, hraise, -⟩ := @raiseValidity_eq B _ node BLOCK_VALID_SCRIPTS block
    rw [hraise]
    exact hnode
  marked _ hnode := hnode
  pruned hnode hpruned := by
    obtain ⟨-, rfl⟩ := exists_of_pruned hpruned
    exact hnode

theorem connectPath_tried {oldTip : Option B} {rest : List B} {result : ConnectResult}
    (htried : node.connectTip params validation block = some (result, next)) :
    (connectPath params validation oldTip (block :: rest) node).All
      fun last => next.attempts <+: last.attempts := by
  have hkept := @tried_kept B _ params next
  have hnext : next.attempts <+: next.attempts := List.prefix_rfl
  have hends : (if next.tip = none then Done.error "" next else .ok next).All
      fun last => next.attempts <+: last.attempts := by
    split
    · exact hnext
    · exact hnext
  rw [connectPath, htried]
  cases result with
  | connected upgradeRequired =>
    dsimp only
    cases hprune : next.pruneBlockIndexCandidates params with
    | none => trivial
    | some pruned =>
      have hpruned := hkept.pruned hnext hprune
      dsimp only
      split
      · exact hpruned
      · exact hkept.connectPath validation oldTip rest hpruned
  | invalid => exact hends
  | corrupted => exact hends
  | failed reason => exact hnext

theorem connectPath_ready {oldTip : Option B} {path : List B} :
    ∀ {node : Node B}, (∀ block ∈ path, node.Ready block) →
      (connectPath params validation oldTip path node).All (TriesReady node) := by
  induction path with
  | nil => exact fun _ => TriesReady.refl _
  | cons block path ih =>
    intro node hready
    rw [connectPath]
    by_cases hparent : node.tree.pprev block = node.tip
    · obtain ⟨result, tried, htried, hspec⟩ :=
        @connectTip_tried B _ params validation node block hparent
      obtain ⟨hdata, hfailed⟩ := hready block (.head _)
      have htries : TriesReady node tried :=
        ⟨[(block, true)], by rw [hspec.attempts, hdata, hfailed]; rfl,
          fun attempt hmem => by rw [List.mem_singleton.mp hmem]⟩
      have hends : (if tried.tip = none then Done.error "" tried else .ok tried).All
          (TriesReady node) := by
        split
        · exact htries
        · exact htries
      rw [htried]
      cases result with
      | connected upgradeRequired =>
        dsimp only
        cases hprune : tried.pruneBlockIndexCandidates params with
        | none => trivial
        | some pruned =>
          obtain ⟨candidates, rfl⟩ := exists_of_pruned hprune
          have hall : TriesReady node (tried.setCandidates candidates) := htries.trans (.of_eq rfl)
          have hrest : ∀ other ∈ path, (tried.setCandidates candidates).Ready other := by
            intro other hother
            obtain ⟨hdata', hfailed'⟩ := hready other (.tail _ hother)
            have htree : (tried.setCandidates candidates).tree = node.tree := hspec.tree
            refine ⟨by rw [htree]; exact hdata', ?_⟩
            exact (hspec.failed ⟨upgradeRequired, rfl⟩ other).trans hfailed'
          dsimp only
          split
          · exact hall
          · exact Done.All.mono (ih hrest) fun last hlast => hall.trans hlast
      | invalid => exact hends
      | corrupted => exact hends
      | failed reason => exact htries
    have hnone : node.connectTip params validation block = none := by
      exact if_pos hparent
    rw [hnone]
    trivial

/-- Disconnecting moves the tip and nothing else. -/
theorem disconnectTo_frame (fork : Option B) (rounds : ℕ) (node : Node B) :
    (disconnectTo validation fork rounds node).All fun next =>
      next.tree = node.tree ∧ next.selection = node.selection ∧ next.attempts = node.attempts := by
  induction rounds generalizing node with
  | zero => exact ⟨rfl, rfl, rfl⟩
  | succ rounds ih =>
    unfold disconnectTo
    split
    · exact ⟨rfl, rfl, rfl⟩
    unfold disconnectTip
    cases node.tip with
    | none => trivial
    | some tip =>
      dsimp only
      cases validation.disconnect tip with
      | some reason => exact ⟨rfl, rfl, rfl⟩
      | none =>
        cases node.tree.pprev tip with
        | none => trivial
        | some parent => exact ih { node with tip := some parent }

theorem step_ready (hready : ∀ block ∈ node.tree.path node.contains target, node.Ready block) :
    (node.activateBestChainStep params validation target).All (TriesReady node) := by
  have hframe := @disconnectTo_frame B _ validation (node.findFork target) node.chainLength node
  unfold activateBestChainStep
  cases hdone : disconnectTo validation (node.findFork target) node.chainLength node with
  | ok forked =>
    rw [hdone] at hframe
    obtain ⟨htree, hselection, hattempts⟩ := hframe
    have hall : ∀ block ∈ (node.tree.path node.contains target).reverse, forked.Ready block := by
      intro block hblock
      unfold Ready
      rw [htree, hselection]
      exact hready block (List.mem_reverse.mp hblock)
    exact Done.All.mono (connectPath_ready hall) fun last hlast =>
      (TriesReady.of_eq hattempts).trans hlast
  | error reason next =>
    rw [hdone] at hframe
    exact .of_eq hframe.2.2
  | stopped => trivial

theorem refreshTip_attempts (mine : Bool) : (node.refreshTip mine).attempts = node.attempts := by
  unfold refreshTip
  cases node.tip <;> rfl

theorem refreshBefore_attempts (mine : Bool) :
    (node.refreshBefore params mine).attempts = node.attempts := by
  unfold refreshBefore
  split
  · unfold inheritHeight
    split
    · exact refreshTip_attempts mine
    split
    · exact refreshTip_attempts mine
    split
    · exact refreshTip_attempts mine
    · exact refreshTip_attempts mine
  rfl

theorem activateRound_ready (round : Round B) (node : Node B) :
    (node.activateRound params round).All (TriesReady node) := by
  refine activateRound_all (fun {_ selection} hfound => ?_) fun {_ next} _ _ hnext => ?_
  · have hselected : TriesReady node
        { node.refreshBefore params round.mineBefore with selection := selection } :=
      .of_eq (refreshBefore_attempts round.mineBefore)
    refine ⟨hselected, fun chosen hresult _ => ?_⟩
    subst hresult
    have hready := fun block hblock =>
      (ChainEnv.ready_of_returned hfound block hblock).imp_right And.left
    exact (@step_ready B _ params round.validation _ chosen hready).mono fun last hlast =>
      hselected.trans hlast
  exact hnext.trans (.of_eq (refreshTip_attempts round.mineAfter))

theorem activateBestChain_ready (rounds : List (Round B)) (node : Node B) :
    (activateBestChain params rounds node).All (TriesReady node) := by
  refine @activateBestChain_all B _ params _ _ (fun _ _ => True)
    (fun {round _ before} _ hbefore => ⟨?_, fun _ _ => trivial⟩) rounds trivial (TriesReady.refl node)
  exact (@activateRound_ready B _ params round before).mono fun _ hnext =>
    TriesReady.trans hbefore hnext

end Node

end Amberchain.BestChain
