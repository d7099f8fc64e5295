import Amberchain.BestChain.Linked
import Amberchain.BestChain.Tries

/-!
# Steps keep the candidates complete

A step goes down to the fork and climbs again.  What is between is pruned, so that the set is
complete afterwards only when the tip that is reached is not worse than the one before.
-/

namespace Amberchain.BestChain.Node

open BlockTree

variable {B : Type} [LinearOrder B] {params : NodeParams} {validation : Validation B}
  {node next : Node B} {old : Option B} {block target tip : B}

def TipNotWorse (params : NodeParams) (start : Node B) (old : Option B) (next : Node B) : Prop :=
  next.tree = start.tree ∧ ∃ tip, next.tip = some tip ∧ NotWorse params start old tip

theorem less_of_tree (htree : next.tree = node.tree) : next.less params = node.less params := by
  unfold Node.less ChainEnv.less env
  rw [htree]

theorem TipNotWorse.of_tree {start : Node B} (htree : node.tree = start.tree)
    (hnext : TipNotWorse params node old next) : TipNotWorse params start old next := by
  obtain ⟨hsame, top, htop, hold⟩ := hnext
  refine ⟨hsame.trans htree, top, htop, fun other hother => ?_⟩
  rw [← less_of_tree htree]
  exact hold other hother

/-- Above a tip that is not worse there is no worse one. -/
theorem connectPath_above {oldTip : Option B} {path : List B} :
    ∀ {node : Node B} {tip : B}, node.tree.WorkGrows → Climbs node.tree node.tip path →
      node.tip = some tip → NotWorse params node old tip →
      (connectPath params validation oldTip path node).All (TipNotWorse params node old) := by
  induction path with
  | nil => exact fun {_ tip} _ _ htip hold => ⟨rfl, tip, htip, hold⟩
  | cons block path ih =>
    intro node tip hgrows hclimbs htip hold
    obtain ⟨result, tried, htried, hspec⟩ :=
      @connectTip_tried B _ params validation node block hclimbs.1
    have hstays : tried.tip = node.tip → TipNotWorse params node old tried := fun hsame =>
      ⟨hspec.tree, tip, hsame.trans htip, hold⟩
    rw [connectPath, htried]
    cases result with
    | connected upgradeRequired =>
      dsimp only
      cases hprune : tried.pruneBlockIndexCandidates params with
      | none => trivial
      | some pruned =>
        obtain ⟨candidates, rfl⟩ := exists_of_pruned hprune
        have htop : (tried.setCandidates candidates).tip = some block :=
          hspec.top ⟨upgradeRequired, rfl⟩
        have htree : (tried.setCandidates candidates).tree = node.tree := hspec.tree
        have hbetter : NotWorse params node old block := fun other hother => by
          have hwork := hgrows (hclimbs.1.trans htip)
          exact not_less_trans (not_less_of_chainWork hwork) (hold other hother)
        dsimp only
        split
        · exact ⟨htree, block, htop, hbetter⟩
        refine Done.All.mono (ih ?_ ?_ htop ?_) fun last hlast => hlast.of_tree htree
        · rw [htree]
          exact hgrows
        · rw [htree, htop]
          exact hclimbs.2
        intro other hother
        rw [less_of_tree htree]
        exact hbetter other hother
    | invalid =>
      have hsame := hspec.tip.resolve_left (by simp)
      dsimp only
      split
      · exact hstays hsame
      · exact hstays hsame
    | corrupted =>
      have hsame := hspec.tip.resolve_left (by simp)
      dsimp only
      split
      · exact hstays hsame
      · exact hstays hsame
    | failed reason => exact hstays (hspec.tip.resolve_left (by simp))

/-- Blocks that connect without an upgrade, up to one that is not worse than the old tip. -/
theorem connectPath_reaches {oldTip : Option B} {front rest : List B} :
    ∀ {node : Node B}, node.tree.WorkGrows → Climbs node.tree node.tip (front ++ block :: rest) →
      (∀ other ∈ front, validation.connect other = .connected false) →
      (∃ upgradeRequired, validation.connect block = .connected upgradeRequired) →
      (∀ other ∈ front ++ [block], node.tree.haveData other = true) →
      NotWorse params node oldTip block →
      (connectPath params validation oldTip (front ++ block :: rest) node).All
        (TipNotWorse params node oldTip) := by
  induction front with
  | nil =>
    intro node hgrows hclimbs _ hconnect hdata hold
    obtain ⟨upgradeRequired, hconnect⟩ := hconnect
    obtain ⟨result, tried, htried, hspec⟩ :=
      @connectTip_tried B _ params validation node block hclimbs.1
    rw [List.nil_append, connectPath, htried,
      hspec.decided (hdata block (.head _)), hconnect]
    dsimp only
    cases hprune : tried.pruneBlockIndexCandidates params with
    | none => trivial
    | some pruned =>
      obtain ⟨candidates, rfl⟩ := exists_of_pruned hprune
      have hresult := hspec.decided (hdata block (.head _))
      have htop : (tried.setCandidates candidates).tip = some block :=
        hspec.top ⟨upgradeRequired, hresult.trans hconnect⟩
      have htree : (tried.setCandidates candidates).tree = node.tree := hspec.tree
      dsimp only
      split
      · exact ⟨htree, block, htop, hold⟩
      refine Done.All.mono (connectPath_above ?_ ?_ htop ?_) fun last hlast => hlast.of_tree htree
      · rw [htree]
        exact hgrows
      · rw [htree, htop]
        exact hclimbs.2
      intro other hother
      rw [less_of_tree htree]
      exact hold other hother
  | cons first front ih =>
    intro node hgrows hclimbs hfront hconnect hdata hold
    obtain ⟨result, tried, htried, hspec⟩ :=
      @connectTip_tried B _ params validation node first hclimbs.1
    have hresult := hspec.decided (hdata first (.head _))
    rw [hfront first (.head _)] at hresult
    rw [List.cons_append, connectPath, htried, hresult]
    dsimp only
    cases hprune : tried.pruneBlockIndexCandidates params with
    | none => trivial
    | some pruned =>
      obtain ⟨candidates, rfl⟩ := exists_of_pruned hprune
      have htop : (tried.setCandidates candidates).tip = some first := hspec.top ⟨false, hresult⟩
      have htree : (tried.setCandidates candidates).tree = node.tree := hspec.tree
      dsimp only
      split
      · -- the step ends with more work
        rename_i hends
        refine ⟨htree, first, htop, fun other hother => ?_⟩
        have hmore := hends.resolve_right Bool.false_ne_true
        unfold moreWork at hmore
        rw [htop, Option.mem_def.mp hother, htree] at hmore
        exact not_less_of_chainWork (of_decide_eq_true hmore)
      refine Done.All.mono (ih ?_ ?_ ?_ hconnect ?_ ?_) fun last hlast => hlast.of_tree htree
      · rw [htree]
        exact hgrows
      · rw [htree, htop]
        exact hclimbs.2
      · exact fun other hother => hfront other (.tail _ hother)
      · intro other hother
        rw [htree]
        exact hdata other (.tail _ hother)
      intro other hother
      rw [less_of_tree htree]
      exact hold other hother

/-- A step towards a block reaches one that is not worse than the tip: the blocks above the fork
can be disconnected, and those up to that one connect without an upgrade. -/
def Reaches (params : NodeParams) (validation : Validation B) (node : Node B) (target : B) : Prop :=
  (∀ block ∈ node.leaving target, validation.disconnect block = none) ∧
    ∃ front block rest,
      (node.tree.path node.contains target).reverse = front ++ block :: rest ∧
      (∀ other ∈ front, validation.connect other = .connected false) ∧
      (∃ upgradeRequired, validation.connect block = .connected upgradeRequired) ∧
      NotWorse params node node.tip block

/-- At the fork what is not worse than the tip is still there. -/
theorem Fine.atFork (hnode : Fine params none node) (target : B) :
    Fine params node.tip (node.atFork target) := by
  have hbelow : ∀ fork ∈ (node.atFork target).tip, node.contains fork = true := by
    intro fork hfork
    change node.findFork target = some fork at hfork
    rw [findFork_eq] at hfork
    exact (forkOf_spec hfork).1
  constructor
  · refine hnode.linked.same ⟨rfl, rfl, rfl, rfl, rfl, rfl, rfl, rfl, fun _ => Nat.le_refl _⟩
      hnode.linked.members fun fork hfork => ?_
    obtain ⟨top, htop, hancestor⟩ := contains_iff.mp (hbelow fork hfork)
    exact hnode.linked.ancestor hancestor (hnode.linked.tip top htop)
  intro block hbelongs _ hold
  refine hnode.complete block ⟨hbelongs.valid, hbelongs.linked, fun hbanned => ?_⟩ hold nofun
  obtain ⟨fork, hfork, hancestor⟩ := contains_iff.mp (hbelongs.allowed hbanned)
  obtain ⟨top, htop, habove⟩ := contains_iff.mp (hbelow fork hfork)
  exact contains_iff.mpr ⟨top, htop, Ancestor.trans hancestor habove⟩

theorem Fine.of_tip (hnode : Fine params old node) (htip : node.tip = some tip)
    (hold : NotWorse params node old tip) : Fine params none node := by
  refine ⟨hnode.linked, fun block hbelongs hbetter _ => ?_⟩
  exact hnode.complete block hbelongs hbetter fun other hother =>
    not_less_trans (hbetter tip htip) (hold other hother)

/-- A step over linked blocks that reaches one that is not worse than the tip. -/
theorem Fine.step (hnode : Fine params none node)
    (hmay : ∀ block ∈ node.tree.path node.contains target, node.MayConnect block)
    (hreaches : Reaches params validation node target) :
    (node.activateBestChainStep params validation target).All (Fine params none) := by
  obtain ⟨hworks, front, block, rest, hpath, hfront, hconnect, hold⟩ := hreaches
  have hclimbs : Climbs (node.atFork target).tree (node.atFork target).tip
      (node.tree.path node.contains target).reverse := by
    unfold Node.atFork
    rw [findFork_eq]
    exact climbs_path
  have hfine := @Fine.connectPath B _ params node.tip validation node.tip _ _
    (hnode.atFork target) hclimbs fun block hblock => hmay block (List.mem_reverse.mp hblock)
  have hdata : ∀ other ∈ front ++ [block], node.tree.haveData other = true := by
    intro other hother
    have hmem : other ∈ (node.tree.path node.contains target).reverse := by
      rw [hpath]
      cases List.mem_append.mp hother with
      | inl hin => exact List.mem_append_left _ hin
      | inr hin =>
        rw [List.mem_singleton.mp hin]
        exact List.mem_append_right _ (.head _)
    exact hnode.linked.data (hmay other (List.mem_reverse.mp hmem)).1
  rw [step_eq hworks]
  rw [hpath] at hclimbs hfine ⊢
  have htop := @connectPath_reaches B _ params validation block node.tip front rest
    (node.atFork target) hnode.linked.grows hclimbs hfront hconnect hdata hold
  refine Done.All.mono (Done.All.both hfine htop) fun last hlast => ?_
  obtain ⟨hlastFine, htree, top, htip, hnotWorse⟩ := hlast
  refine hlastFine.of_tip htip fun other hother => ?_
  rw [less_of_tree htree]
  exact hnotWorse other hother

/-- Choosing removes candidates only when they are marked as failed, or banned and off the active
chain; and what is returned is at or below a candidate. -/
theorem returned_spec {env : ChainEnv B} {wanted : B → Prop} {rounds : ℕ} {result : Option B}
    {final : Selection B} : ∀ {start : Selection B},
      env.findMostWorkChain rounds start = .returned result final →
      (∀ block, start.failed block = false → (env.banned block = true → env.active block = true) →
        wanted block → block ∈ start.candidates) →
      (∀ block, final.failed block = false → start.failed block = false) ∧
        (∀ block, final.failed block = false →
          (env.banned block = true → env.active block = true) → wanted block →
          block ∈ final.candidates) ∧
        ∀ chosen ∈ result, ∃ candidate ∈ start.candidates, Ancestor env.tree chosen candidate := by
  induction rounds with
  | zero => intro _ hreturned; cases hreturned
  | succ rounds ih =>
    intro start hreturned hstart
    obtain ⟨collected, temp, hcollect, hcollected⟩ := env.collect_spec start.candidates start []
    have hfailed : ∀ block, collected.failed block = false → start.failed block = false := by
      intro block hblock
      by_contra hmarked
      rw [hcollected.failed block (Bool.not_eq_false _ ▸ hmarked)] at hblock
      cases hblock
    have hsame : ∀ block, collected.failed block = false →
        (env.banned block = true → env.active block = true) → wanted block →
        block ∈ collected.candidates := by
      intro block hblock hallowed hwanted
      rw [hcollected.same]
      exact hstart block (hfailed block hblock) hallowed hwanted
    unfold ChainEnv.findMostWorkChain at hreturned
    rw [hcollect] at hreturned
    dsimp only at hreturned
    cases hbest : env.rbegin temp with
    | none =>
      rw [hbest] at hreturned
      cases hreturned
      exact ⟨hfailed, hsame, by simp⟩
    | some best =>
      rw [hbest] at hreturned
      dsimp only at hreturned
      cases htest : env.testPath collected [] (env.tree.path env.active best) with
      | valid =>
        rw [htest] at hreturned
        cases hreturned
        refine ⟨hfailed, hsame, fun chosen hchosen => ?_⟩
        cases hchosen
        obtain ⟨candidate, hcandidate, hadjust⟩ := (hcollected.mem best
          (ChainEnv.greatest_of_rbegin hbest).mem).resolve_left List.not_mem_nil
        obtain ⟨found, hfound, hancestor⟩ := @ChainEnv.adjust_spec B _ env candidate
        rw [hadjust] at hfound
        cases hfound
        exact ⟨candidate, hcandidate, hancestor⟩
      | assertionFailed =>
        rw [htest] at hreturned
        cases hreturned
      | invalid above invalid =>
        rw [htest] at hreturned
        have hremoved : ∀ block, (collected.removeChain above invalid).failed block = false →
            collected.failed block = false ∧ block ∉ above := by
          intro block hblock
          rw [ChainEnv.failed_removeChain, Bool.or_eq_false_iff] at hblock
          exact ⟨hblock.1, of_decide_eq_false hblock.2⟩
        obtain ⟨hagain, hcomplete, hsource⟩ := ih hreturned fun block hblock hallowed hwanted => by
          obtain ⟨hright, habove⟩ := hremoved block hblock
          refine List.mem_filter.mpr ⟨hsame block hright hallowed hwanted, decide_eq_true ?_⟩
          intro hmem
          have hinvalid := List.mem_singleton.mp ((List.mem_append.mp hmem).resolve_left habove)
          obtain ⟨hwrong, hpath⟩ := ChainEnv.invalid_of_testPath htest
          have hoff := not_active_of_mem_path hpath
          rw [hinvalid] at hright hallowed
          cases hwrong with
          | inl hmarked =>
            rw [hmarked] at hright
            cases hright
          | inr hbanned =>
            rw [hallowed hbanned] at hoff
            cases hoff
        refine ⟨fun block hblock => hfailed block (hremoved block (hagain block hblock)).1,
          hcomplete, fun chosen hchosen => ?_⟩
        obtain ⟨candidate, hcandidate, hancestor⟩ := hsource chosen hchosen
        have hin := (List.mem_filter.mp hcandidate).1
        rw [hcollected.same] at hin
        exact ⟨candidate, hin, hancestor⟩

end Amberchain.BestChain.Node

/-!
# Blocks that a node has marked as failed

While the best chain is activated a failed block stays failed, and it is not tried again.
-/

namespace Amberchain.BestChain

variable {B : Type}

theorem Node.Activation.All.both {property other : Node B → Prop} {result : Node.Activation B}
    (hall : result.All property) (hother : result.All other) :
    result.All fun node => property node ∧ other node := by
  cases result with
  | done result => exact Done.All.both hall hother
  | again node => exact ⟨hall, hother⟩
  | choosing => trivial

namespace Node

variable [LinearOrder B] {params : NodeParams} {node : Node B} {block : B}

def Abandoned (block : B) (start next : Node B) : Prop :=
  next.selection.failed block = true ∧
    ∃ tries, next.attempts = start.attempts ++ tries ∧
      ∀ attempt ∈ tries, attempt.1 = block → attempt.2 = false

omit [LinearOrder B] in
theorem failed_update_true (failed : B → Bool) [DecidableEq B] (block : B) {other : B}
    (hother : failed other = true) : Function.update failed block true other = true := by
  rw [Function.update_apply]
  split
  · rfl
  exact hother

theorem failed_markFailedValid (block : B) {other : B}
    (hother : node.selection.failed other = true) :
    (node.markFailedValid block).selection.failed other = true := by
  unfold Selection.failed at hother ⊢
  rw [Bool.or_eq_true] at hother ⊢
  exact hother.imp_left (failed_update_true node.selection.failedValid block)

/-- Steps towards a chain leave a failed block failed. -/
theorem abandoned_kept (block : B) (start : Node B) : Kept params (Abandoned block start) where
  attempted {node} other hnode := by
    obtain ⟨hfailed, tries, hattempts, htries⟩ := hnode
    refine ⟨hfailed, tries ++ [(other, node.tree.haveData other && !node.selection.failed other)],
      by rw [← List.append_assoc, ← hattempts], fun attempt hmem heq => ?_⟩
    cases List.mem_append.mp hmem with
    | inl hin => exact htries attempt hin heq
    | inr hin =>
      have hattempt := List.mem_singleton.mp hin
      rw [hattempt] at heq ⊢
      dsimp only at heq ⊢
      rw [heq, hfailed]
      exact Bool.and_false _
  disconnected hnode _ _ := hnode
  connected {node other} hnode _ _ := by
    obtain ⟨validity, hraise, -⟩ := @raiseValidity_eq B _ node BLOCK_VALID_SCRIPTS other
    rw [hraise]
    exact hnode
  marked {node} other hnode := ⟨failed_markFailedValid other hnode.1, hnode.2⟩
  pruned hnode hpruned := by
    obtain ⟨-, rfl⟩ := exists_of_pruned hpruned
    exact hnode

theorem refreshTip_selection (mine : Bool) : (node.refreshTip mine).selection = node.selection := by
  unfold refreshTip
  cases node.tip <;> rfl

theorem refreshBefore_selection (mine : Bool) :
    (node.refreshBefore params mine).selection = node.selection := by
  unfold refreshBefore
  split
  · unfold inheritHeight
    split
    · exact refreshTip_selection mine
    split
    · exact refreshTip_selection mine
    split
    · exact refreshTip_selection mine
    · exact refreshTip_selection mine
  rfl

/-- `ActivateBestChain` leaves a failed block failed. -/
theorem activateBestChain_abandoned (rounds : List (Round B)) {start : Node B}
    (hnode : Abandoned block start node) :
    (activateBestChain params rounds node).All (Abandoned block start) := by
  refine @activateBestChain_all B _ params _ _ (fun _ _ => True)
    (fun {round _ node} _ hnode => ⟨?_, fun _ _ => trivial⟩) rounds trivial hnode
  have hbefore : Abandoned block start (node.refreshBefore params round.mineBefore) := by
    unfold Abandoned
    rw [refreshBefore_selection, refreshBefore_attempts]
    exact hnode
  refine activateRound_all (fun {_ selection} hfound => ?_) ?_
  · have hstart : Abandoned block start
        { node.refreshBefore params round.mineBefore with selection := selection } := by
      refine ⟨?_, hbefore.2⟩
      by_contra hclear
      obtain ⟨hmarks, -⟩ := @returned_spec B _ _ (fun _ => False) _ _ _ _ hfound
        fun _ _ _ => False.elim
      have hstart := hmarks block (Bool.not_eq_true _ ▸ hclear)
      rw [hbefore.1] at hstart
      cases hstart
    exact ⟨hstart, fun chosen _ _ =>
      (abandoned_kept block start).step round.validation chosen hstart⟩
  intro chosen next _ _ hnext
  unfold Abandoned
  rw [refreshTip_selection, refreshTip_attempts]
  exact hnext

theorem activateBestChain_not_tried (rounds : List (Round B))
    (hfailed : node.selection.failed block = true) :
    (activateBestChain params rounds node).All fun last =>
      ∃ tries, last.attempts = node.attempts ++ tries ∧ ∀ attempt ∈ tries, attempt.1 ≠ block := by
  have habandoned : Abandoned block node node := ⟨hfailed, [], (List.append_nil _).symm, nofun⟩
  have hboth := (activateBestChain_abandoned rounds habandoned).both
    (@activateBestChain_ready B _ params rounds node)
  apply Activation.All.mono hboth
  rintro last ⟨⟨-, tries, hattempts, hnever⟩, ready, hready, hall⟩
  refine ⟨tries, hattempts, fun attempt hmem heq => ?_⟩
  have hsame : tries = ready := List.append_cancel_left (hattempts.symm.trans hready)
  have hfalse := hnever attempt hmem heq
  rw [hall attempt (hsame ▸ hmem)] at hfalse
  cases hfalse

end Node

end Amberchain.BestChain
