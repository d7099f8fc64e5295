import Amberchain.BestChain.CompleteBlocks

/-!
# What keeps the candidates complete

Each operation keeps them complete under a condition where it starts: what becomes wanted has to
be in the set already, as the operation does not insert it.
-/

namespace Amberchain.BestChain.Node

open BlockTree

variable {B : Type} [LinearOrder B] {params : NodeParams} {validation : Validation B}
  {node next : Node B} {old : Option B} {block target : B}

def StaysBehind (params : NodeParams) (node next : Node B) : Prop :=
  ∀ tip ∈ node.tip, ∀ block, Belongs node block → block ∉ node.candidates →
    node.less params block tip = true → next.less params block tip = true

/-- What a round of `ActivateBestChain` has to meet: setting the tip's mining status leaves the
blocks outside the set behind it, and the step reaches a block not worse than the tip. -/
def RoundGood (params : NodeParams) (round : Round B) (node : Node B) : Prop :=
  StaysBehind params node (node.refreshBefore params round.mineBefore) ∧
    (∀ found ∈ node.beforeStep params round, Reaches params round.validation found.2 found.1) ∧
    ∀ found ∈ node.afterStep params round,
      StaysBehind params found.2 (found.2.refreshTip round.mineAfter)

def RoundsGood (params : NodeParams) : List (Round B) → Node B → Prop
  | [], _ => True
  | round :: rounds, node => RoundGood params round node ∧
      ∀ next, node.activateRound params round = .again next → RoundsGood params rounds next

section

variable (hnode : Fine params none node)

include hnode

theorem Fine.setMining {tip : B} {canMine : ℕ} {height : ℤ}
    (hstays : StaysBehind params node (node.setMining tip canMine height)) :
    Fine params none (node.setMining tip canMine height) := by
  constructor
  · exact hnode.linked.same ⟨rfl, rfl, rfl, rfl, rfl, rfl, rfl, rfl, fun _ => Nat.le_refl _⟩
      hnode.linked.members hnode.linked.tip
  intro other hbelongs hbetter _
  have hbefore : Belongs node other := ⟨hbelongs.valid, hbelongs.linked, fun hbanned =>
    @contains_of_pprev B _ node other (node.setMining tip canMine height) rfl rfl
      (hbelongs.allowed hbanned)⟩
  by_contra hout
  refine hout (hnode.complete other hbefore (fun top htop => ?_) nofun)
  cases hless : node.less params other top with
  | false => rfl
  | true =>
    have hstill := hstays top htop other hbefore hout hless
    have hnot : (node.setMining tip canMine height).less params other top = false :=
      hbetter top htop
    rw [hstill] at hnot
    cases hnot

theorem Fine.refreshBefore {mine : Bool}
    (hstays : StaysBehind params node (node.refreshBefore params mine)) :
    Fine params none (node.refreshBefore params mine) := by
  obtain hsame | ⟨tip, canMine, height, -, hset⟩ := refreshBefore_eq params node mine
  · rw [hsame]
    exact hnode
  rw [hset] at hstays ⊢
  exact hnode.setMining hstays

theorem Fine.refreshTip {mine : Bool}
    (hstays : StaysBehind params node (node.refreshTip mine)) :
    Fine params none (node.refreshTip mine) := by
  cases htip : node.tip with
  | none =>
    rw [refreshTip_of_none htip]
    exact hnode
  | some tip =>
    obtain ⟨canMine, height, hset⟩ := refreshTip_of_some htip mine
    rw [hset] at hstays ⊢
    exact hnode.setMining hstays

/-- What choosing leaves, and the path to what is chosen. -/
theorem Fine.selected {verify : Selection B → B → Bool × (B → Bool)} {rounds : ℕ}
    {result : Option B} {selection : Selection B}
    (hfound : (node.env params verify).findMostWorkChain rounds node.selection =
      .returned result selection) : Fine params none { node with selection := selection } ∧
      ∀ chosen ∈ result, ∀ block ∈ node.tree.path node.contains chosen, node.MayConnect block := by
  obtain ⟨-, hcomplete, hsource⟩ := @returned_spec B _ (node.env params verify)
    (fun block => node.tree.chainTx block ≠ 0 ∧ NotWorse params node node.tip block) rounds result
    selection node.selection hfound fun block hright hallowed hwanted =>
      hnode.complete block ⟨hright, hwanted.1, fun hbanned => hallowed (decide_eq_true hbanned)⟩
        hwanted.2 nofun
  refine ⟨⟨?_, ?_⟩, fun chosen hchosen block hblock => ?_⟩
  · refine hnode.linked.same ⟨rfl, rfl, rfl, rfl, rfl, rfl, rfl, rfl, fun _ => Nat.le_refl _⟩
      (fun other hother => ?_) hnode.linked.tip
    exact hnode.linked.members other ((findMostWorkChain_sublist hfound).subset hother)
  · intro other hbelongs hbetter _
    exact hcomplete other hbelongs.valid
      (fun hbanned => hbelongs.allowed (of_decide_eq_true hbanned)) ⟨hbelongs.linked, hbetter⟩
  obtain ⟨candidate, hcandidate, hancestor⟩ := hsource chosen hchosen
  cases hchosen
  obtain ⟨-, -, hallowed⟩ := ChainEnv.ready_of_returned hfound block hblock
  have hlinked := hnode.linked.members candidate hcandidate
  exact ⟨hnode.linked.ancestor (Ancestor.trans (ancestor_of_mem_path hblock) hancestor) hlinked,
    of_decide_eq_false hallowed⟩

theorem Fine.round {round : Round B}
    (hgood : RoundGood params round node) :
    (node.activateRound params round).All (Fine params none) := by
  obtain ⟨hbefore, hreaches, hafter⟩ := hgood
  refine activateRound_all (fun hfound => ?_) fun hstep _ hnext => ?_
  · obtain ⟨hselected, hmay⟩ := (hnode.refreshBefore hbefore).selected hfound
    exact ⟨hselected, fun chosen hresult hstep =>
      Fine.step hselected (hmay chosen hresult) (hreaches _ hstep)⟩
  exact hnext.refreshTip (hafter _ hstep)

theorem Fine.rounds {rounds : List (Round B)}
    (hgood : RoundsGood params rounds node) :
    (activateBestChain params rounds node).All (Fine params none) :=
  activateBestChain_all (fun hgood hnode => ⟨hnode.round hgood.1, hgood.2⟩) rounds hgood hnode

end

theorem Fine.prune (hnode : Fine params none node)
    (hpruned : node.pruneBlockIndexCandidates params = some next) : Fine params none next := by
  cases htip : node.tip with
  | none =>
    unfold pruneBlockIndexCandidates at hpruned
    rw [htip] at hpruned
    cases hpruned
  | some tip =>
    obtain ⟨-, hnone⟩ | ⟨-, hsome⟩ := @prune_cases B _ params node tip htip
    · rw [hnone] at hpruned
      cases hpruned
    rw [hsome] at hpruned
    cases hpruned
    constructor
    · refine hnode.linked.same ⟨rfl, rfl, rfl, rfl, rfl, rfl, rfl, rfl, fun _ => Nat.le_refl _⟩
        (fun other hother => ?_) hnode.linked.tip
      exact hnode.linked.members other (candidates_of_remaining other hother)
    intro other hbelongs hbetter hold
    have hmem := hnode.complete other
      ⟨hbelongs.valid, hbelongs.linked, hbelongs.allowed⟩ hbetter hold
    exact mem_remaining hmem fun top htop => by
      rw [List.mem_singleton.mp htop]
      exact hbetter tip htip

theorem insertForBetter_eq :
    ∀ {blocks : List B}, (∀ other ∈ blocks, node.betterThanTip params other ≠ some true) →
      insertForBetter params block blocks node = some next → next = node := by
  intro blocks
  induction blocks with
  | nil =>
    intro _ hnext
    cases hnext
    rfl
  | cons other rest ih =>
    intro hworse hnext
    unfold insertForBetter at hnext
    cases hbetter : node.betterThanTip params other with
    | none =>
      rw [hbetter] at hnext
      cases hnext
    | some better =>
      rw [hbetter] at hnext
      cases better with
      | true => exact absurd hbetter (hworse other (.head _))
      | false => exact ih (fun last hlast => hworse last (.tail _ hlast)) hnext

/-- A block that is not active is invalidated: it is linked, or no block is better than the
tip. -/
theorem Fine.invalidateBlock (hnode : Fine params none node) (hoff : node.contains block = false)
    (hlinked : (∃ other ∈ node.index, node.betterThanTip params other = some true) →
      node.tree.chainTx block ≠ 0) :
    (node.invalidateBlock params validation block).All (Fine params none) := by
  have hmarked := hnode.marked block
  have hactive : Node.invalidateActive params validation block node.chainLength
      ((node.markFailedValid block).eraseCandidate params block) =
        .ok ((node.markFailedValid block).eraseCandidate params block) := by
    cases node.chainLength with
    | zero => rfl
    | succ rounds =>
      unfold invalidateActive
      have hsame : ((node.markFailedValid block).eraseCandidate params block).contains block =
          false := hoff
      split
      · rfl
      · rw [if_pos (by rw [hsame]; exact Bool.false_ne_true)]
  unfold Node.invalidateBlock
  dsimp only
  rw [hactive]
  dsimp only
  cases hinserted : insertForBetter params block
      ((node.markFailedValid block).eraseCandidate params block).index
      ((node.markFailedValid block).eraseCandidate params block) with
  | none => trivial
  | some last =>
    by_cases hnow : node.tree.chainTx block = 0
    · rw [insertForBetter_eq (fun other hother hbetter => ?_) hinserted]
      · exact hmarked
      refine hlinked ⟨other, hother, ?_⟩ hnow
      unfold betterThanTip at hbetter ⊢
      split at hbetter
      · rename_i hvalid
        have hright : node.isValid BLOCK_VALID_TRANSACTIONS other = true := by
          have hmarkedValid := hvalid.1
          unfold isValid at hmarkedValid ⊢
          rw [Bool.and_eq_true, Bool.not_eq_true'] at hmarkedValid ⊢
          exact ⟨(not_failed_of_marked hmarkedValid.1).2, hmarkedValid.2⟩
        rw [if_pos ⟨hright, hvalid.2⟩]
        exact hbetter
      · cases hbetter
    have hall : Fine params none last ∧ last.tree.chainTx block ≠ 0 := by
      refine @insertForBetter_kept B _ params (fun next => Fine params none next ∧
        next.tree.chainTx block ≠ 0) block (fun hstart _ => ⟨hstart.1.insert hstart.2, hstart.2⟩)
        _ _ _ ⟨hmarked, hnow⟩ hinserted
    exact hall.1

theorem Fine.clearFailed (hnode : Fine params none node)
    (hwanted : node.tree.chainTx block ≠ 0 → (block ∈ node.banned → node.contains block = true) →
      NotWorse params node node.tip block → block ∈ node.candidates) :
    Fine params none (node.clearFailed block) := by
  constructor
  · exact hnode.linked.same ⟨rfl, rfl, rfl, rfl, rfl, rfl, rfl, rfl, fun _ => Nat.le_refl _⟩
      hnode.linked.members hnode.linked.tip
  intro other hbelongs hbetter _
  by_cases hsame : other = block
  · rw [hsame] at hbelongs hbetter ⊢
    exact hwanted hbelongs.linked hbelongs.allowed hbetter
  refine hnode.complete other ⟨?_, hbelongs.linked, hbelongs.allowed⟩ hbetter nofun
  have hright : (Function.update node.selection.failedValid block false other ||
      Function.update node.selection.failedChild block false other) = false := hbelongs.valid
  rw [Function.update_of_ne hsame, Function.update_of_ne hsame] at hright
  exact hright

theorem failed_clearFailed (block other : B) : (node.clearFailed block).selection.failed other =
      (!decide (other = block) && node.selection.failed other) := by
  change (Function.update node.selection.failedValid block false other ||
    Function.update node.selection.failedChild block false other) = _
  by_cases hsame : other = block
  · rw [hsame, Function.update_self, Function.update_self, decide_eq_true rfl]
    rfl
  rw [Function.update_of_ne hsame, Function.update_of_ne hsame, decide_eq_false hsame]
  rfl

/-- What the loop over the block index leaves as it was. -/
structure Reconsidered (node next : Node B) : Prop where
  tree : next.tree = node.tree
  tip : next.tip = node.tip
  banned : next.banned = node.banned
  cleared : ∀ other, next.selection.failed other = true → node.selection.failed other = true
  kept : ∀ other ∈ node.candidates, other ∈ next.candidates

omit [LinearOrder B] in
theorem Reconsidered.trans {last : Node B} (hfirst : Reconsidered node next)
    (hsecond : Reconsidered next last) : Reconsidered node last where
  tree := hsecond.tree.trans hfirst.tree
  tip := hsecond.tip.trans hfirst.tip
  banned := hsecond.banned.trans hfirst.banned
  cleared other hother := hfirst.cleared other (hsecond.cleared other hother)
  kept other hother := hsecond.kept other (hfirst.kept other hother)

theorem reconsidered_clearFailed (node : Node B) (block : B) :
    Reconsidered node (node.clearFailed block) where
  tree := rfl
  tip := rfl
  banned := rfl
  cleared other hother := by
    rw [failed_clearFailed, Bool.and_eq_true] at hother
    exact hother.2
  kept _ hother := hother

theorem reconsidered_insertCandidate (node : Node B) (block : B) :
    Reconsidered node (node.insertCandidate params block) where
  tree := rfl
  tip := rfl
  banned := rfl
  cleared _ hother := hother
  kept _ hother :=
    (OrderedSet.mem_insert (strict_less params node) block node.candidates).mpr (.inr hother)

/-- The loop of `ReconsiderBlock` over the block index: a tip that is marked has to be in the set. -/
theorem Fine.reconsiderDescendants :
    ∀ {blocks : List B} {node next : Node B}, Fine params none node →
      (∀ tip ∈ node.tip, node.selection.failed tip = true → tip ∈ node.candidates) →
      reconsiderDescendants params block blocks node = some next →
      Fine params none next ∧ Reconsidered node next ∧
        (block ∈ blocks → next.selection.failed block = false) := by
  intro blocks
  induction blocks with
  | nil =>
    intro node next hnode _ hnext
    cases hnext
    exact ⟨hnode, ⟨rfl, rfl, rfl, fun _ => id, fun _ => id⟩, fun hmem => absurd hmem List.not_mem_nil⟩
  | cons other rest ih =>
    intro node next hnode htip hnext
    unfold Node.reconsiderDescendants at hnext
    split at hnext
    · rename_i hbelow
      dsimp only at hnext
      have hclear : (node.clearFailed other).selection.failed other = false := by
        rw [failed_clearFailed, decide_eq_true rfl]
        rfl
      have hlater : ∀ {start : Node B}, Reconsidered (node.clearFailed other) start →
          Reconsidered start next → (block ∈ rest → next.selection.failed block = false) →
          block ∈ other :: rest → next.selection.failed block = false := by
        intro start hstart hlast hrest hmem
        cases List.mem_cons.mp hmem with
        | inl heq =>
          rw [← Bool.not_eq_true]
          intro hfailed
          have hmarked := hstart.cleared block (hlast.cleared block hfailed)
          rw [heq, hclear] at hmarked
          cases hmarked
        | inr hin => exact hrest hin
      have htips : ∀ {start : Node B}, Reconsidered node start →
          ∀ tip ∈ start.tip, start.selection.failed tip = true → tip ∈ start.candidates := by
        intro start hstart tip hmem hfailed
        rw [hstart.tip] at hmem
        exact hstart.kept tip (htip tip hmem (hstart.cleared tip hfailed))
      cases hbetter : (node.clearFailed other).betterThanTip params other with
      | none =>
        rw [hbetter] at hnext
        cases hnext
      | some better =>
        rw [hbetter] at hnext
        cases better with
        | true =>
          have hlinked : node.tree.chainTx other ≠ 0 := by
            unfold betterThanTip at hbetter
            split at hbetter
            · rename_i hvalid
              exact hvalid.2
            · cases hbetter
          have hinserted : Fine params none
              ((node.insertCandidate params other).clearFailed other) :=
            (hnode.insert hlinked).clearFailed fun _ _ _ =>
              (OrderedSet.mem_insert (strict_less params node) other node.candidates).mpr
                (.inl rfl)
          have hstart : Reconsidered node ((node.clearFailed other).insertCandidate params other) :=
            (reconsidered_clearFailed node other).trans (reconsidered_insertCandidate _ other)
          obtain ⟨hfine, hlast, hrest⟩ := ih hinserted (htips hstart) hnext
          exact ⟨hfine, hstart.trans hlast,
            hlater (reconsidered_insertCandidate _ other) hlast hrest⟩
        | false =>
          have hcleared : Fine params none (node.clearFailed other) := by
            refine hnode.clearFailed fun hlinked _ hnotWorse => ?_
            have hvalidity := hnode.linked.valid (hnode.linked.data hlinked)
            have hvalid : (node.clearFailed other).isValid BLOCK_VALID_TRANSACTIONS other = true := by
              unfold isValid
              rw [hclear]
              exact decide_eq_true hvalidity
            have hmarked : node.selection.failed other = true := by
              by_contra hright
              refine hbelow.1 ?_
              unfold isValid
              rw [Bool.eq_false_iff.mpr hright]
              exact decide_eq_true hvalidity
            unfold betterThanTip at hbetter
            rw [if_pos ⟨hvalid, hlinked⟩] at hbetter
            obtain ⟨tip, hmem, hless⟩ := Option.map_eq_some_iff.mp hbetter
            have hsame : other = tip := (strict_less params node).eq_of_not_less
              (hnotWorse tip hmem) hless
            rw [hsame] at hmarked ⊢
            exact htip tip hmem hmarked
          obtain ⟨hfine, hlast, hrest⟩ :=
            ih hcleared (htips (reconsidered_clearFailed node other)) hnext
          exact ⟨hfine, (reconsidered_clearFailed node other).trans hlast,
            hlater ⟨rfl, rfl, rfl, fun _ => id, fun _ => id⟩ hlast hrest⟩
    · rename_i hother
      obtain ⟨hfine, hlast, hrest⟩ := ih hnode htip hnext
      refine ⟨hfine, hlast, fun hmem => ?_⟩
      cases List.mem_cons.mp hmem with
      | inl heq =>
        rw [← Bool.not_eq_true]
        intro hfailed
        refine hother ⟨fun hvalid => ?_, by rw [← heq]; exact getAncestor_eq_iff.mpr .refl⟩
        unfold isValid at hvalid
        rw [← heq, hlast.cleared block hfailed] at hvalid
        cases hvalid
      | inr hin => exact hrest hin

/-- The loop of `ReconsiderBlock` over the ancestors, which inserts nothing. -/
theorem Fine.reconsiderAncestors {rounds : ℕ} :
    ∀ {node : Node B} {block : B}, Fine params none node →
      (∀ other, Ancestor node.tree other block → node.selection.failed other = true →
        node.tree.chainTx other ≠ 0 → (other ∈ node.banned → node.contains other = true) →
        NotWorse params node node.tip other → other ∈ node.candidates) →
      Fine params none (reconsiderAncestors rounds block node) := by
  induction rounds with
  | zero => exact fun hnode _ => hnode
  | succ rounds ih =>
    intro node block hnode hwanted
    have hcleared : Fine params none (node.clearFailed block) := by
      cases hfailed : node.selection.failed block with
      | true => exact hnode.clearFailed (hwanted block .refl hfailed)
      | false =>
        exact hnode.clearFailed fun hlinked hallowed hbetter =>
          hnode.complete block ⟨hfailed, hlinked, hallowed⟩ hbetter nofun
    unfold Node.reconsiderAncestors
    dsimp only
    split
    · exact hcleared
    rename_i parent hparent
    refine ih hcleared fun other hancestor hfailed => ?_
    rw [failed_clearFailed, Bool.and_eq_true] at hfailed
    exact hwanted other (.step hparent hancestor) hfailed.2

/-- `ReconsiderBlock`: the ancestors that are marked, and the tip, are in the set when they are
wanted. -/
theorem Fine.reconsiderBlock (hnode : Fine params none node) (hknown : block ∈ node.index)
    (hwanted : ∀ other, node.selection.failed other = true → other ≠ block →
      Ancestor node.tree other block → node.tree.chainTx other ≠ 0 →
      (other ∈ node.banned → node.contains other = true) →
      NotWorse params node node.tip other → other ∈ node.candidates)
    (htip : ∀ tip ∈ node.tip, node.selection.failed tip = true → tip ∈ node.candidates) :
    (node.reconsiderBlock params block).All (Fine params none) := by
  unfold Node.reconsiderBlock
  cases hdone : Node.reconsiderDescendants params block node.index node with
  | none => trivial
  | some next =>
    obtain ⟨hfine, hsame, hblock⟩ := hnode.reconsiderDescendants htip hdone
    refine hfine.reconsiderAncestors fun other hancestor hfailed hlinked hallowed hbetter => ?_
    have hne : other ≠ block := by
      intro heq
      rw [heq, hblock hknown] at hfailed
      cases hfailed
    rw [hsame.tree] at hancestor hlinked
    refine hsame.kept other (hwanted other (hsame.cleared other hfailed) hne hancestor hlinked
      (fun hbanned => ?_) fun tip hmem => ?_)
    · exact contains_of_pprev (by rw [hsame.tree]) hsame.tip
        (hallowed (by rw [hsame.banned]; exact hbanned))
    rw [← less_of_tree hsame.tree]
    exact hbetter tip (by rw [hsame.tip]; exact hmem)

theorem mem_of_hasCandidate (hfound : node.hasCandidate params block = true) :
    block ∈ node.candidates := by
  unfold hasCandidate at hfound
  generalize node.candidates = candidates at hfound
  induction candidates with
  | nil => cases hfound
  | cons head rest ih =>
    unfold OrderedSet.contains at hfound
    split at hfound
    · exact .tail _ (ih hfound)
    rename_i hless
    rw [Bool.not_eq_true'] at hfound
    rw [(strict_less params node).eq_of_not_less (Bool.eq_false_iff.mpr hless) hfound]
    exact .head _

theorem Fine.setBannedTxs (hnode : Fine params none node)
    (hlinked : ∀ block ∈ node.banned, block ∈ node.index → node.tree.chainTx block ≠ 0) :
    Fine params none (node.setBannedTxs params) := by
  have hloop : ∀ {blocks : List B} {start : Node B}, Fine params none start →
      (∀ block ∈ blocks, block ∈ start.index → start.tree.chainTx block ≠ 0) →
      ∃ last, blocks.foldl (fun node block =>
          if block ∈ node.index ∧ ¬node.hasCandidate params block then
            node.insertCandidate params block
          else node) start = last ∧ Fine params none last ∧ Reconsidered start last ∧
        last.index = start.index ∧
        (∀ other, start.selection.failed other = true → last.selection.failed other = true) ∧
        ∀ block ∈ blocks, block ∈ start.index → block ∈ last.candidates := by
    intro blocks
    induction blocks with
    | nil =>
      intro start hstart _
      exact ⟨start, rfl, hstart, ⟨rfl, rfl, rfl, fun _ => id, fun _ => id⟩, rfl, fun _ => id,
        fun _ hmem => absurd hmem List.not_mem_nil⟩
    | cons first rest ih =>
      intro start hstart hall
      rw [List.foldl_cons]
      split
      · rename_i hinsert
        obtain ⟨last, hlast, hfine, hsame, hindex, hfailed, hin⟩ :=
          ih (hstart.insert (hall first (.head _) hinsert.1)) fun block hblock =>
            hall block (.tail _ hblock)
        have hfirst := @reconsidered_insertCandidate B _ params start first
        refine ⟨last, hlast, hfine, hfirst.trans hsame, hindex, hfailed, fun block hblock hknown => ?_⟩
        cases List.mem_cons.mp hblock with
        | inl heq =>
          rw [heq]
          exact hsame.kept first ((OrderedSet.mem_insert (strict_less params start) first
            start.candidates).mpr (.inl rfl))
        | inr hmem => exact hin block hmem hknown
      rename_i hskip
      obtain ⟨last, hlast, hfine, hsame, hindex, hfailed, hin⟩ := ih hstart fun block hblock =>
        hall block (.tail _ hblock)
      refine ⟨last, hlast, hfine, hsame, hindex, hfailed, fun block hblock hknown => ?_⟩
      cases List.mem_cons.mp hblock with
      | inl heq =>
        rw [heq] at hknown ⊢
        have hfound : start.hasCandidate params first = true := by
          by_contra hnot
          exact hskip ⟨hknown, hnot⟩
        exact hsame.kept first (mem_of_hasCandidate hfound)
      | inr hmem => exact hin block hmem hknown
  obtain ⟨last, hlast, hfine, hsame, hindex, -, hin⟩ := hloop hnode hlinked
  unfold Node.setBannedTxs
  rw [hlast]
  constructor
  · exact hfine.linked.same ⟨rfl, rfl, rfl, rfl, rfl, rfl, rfl, rfl, fun _ => Nat.le_refl _⟩
      hfine.linked.members hfine.linked.tip
  intro other hbelongs hbetter _
  by_cases hbanned : other ∈ node.banned
  · have hknown : other ∈ node.index := by
      rw [← hindex]
      exact hfine.linked.known hbelongs.linked
    exact hin other hbanned hknown
  refine hfine.complete other ⟨hbelongs.valid, hbelongs.linked, fun hin => ?_⟩ hbetter nofun
  rw [hsame.banned] at hin
  exact absurd hin hbanned

end Amberchain.BestChain.Node
