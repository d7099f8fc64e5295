import Amberchain.BestChain.ActiveChain
import Amberchain.BestChain.NodeRules
import Mathlib.Data.List.TakeWhile

/-!
# Steps towards a block

A step disconnects down to the fork and then connects the blocks of the path, as long as they
have their data and are valid and the candidates are not all worse.  When steps follow each
other the path is connected from below until something else happens.
-/

namespace Amberchain.BestChain.Node

open BlockTree

variable {B : Type} [LinearOrder B] {params : NodeParams} {validation : Validation B}
  {node next : Node B} {block target tip fork : B}

theorem exists_fork (htip : node.tip = some tip) (target : B) :
    ∃ fork, node.tree.forkOf node.contains target = some fork := by
  have hexists : ∀ (height : ℕ) (target : B), node.tree.height target = height →
      ∃ fork, node.tree.forkOf node.contains target = some fork := by
    intro height
    induction height with
    | zero =>
      intro target hheight
      obtain ⟨root, -, hroot, hzero⟩ := getAncestor_spec (Nat.zero_le (node.tree.height tip))
      have hnone : ∀ block, node.tree.height block = 0 → node.tree.pprev block = none := by
        intro block hblock
        cases hparent : node.tree.pprev block with
        | none => rfl
        | some parent =>
          have habove := node.tree.height_pprev hparent
          omega
      have hsame := node.tree.root_unique (hnone root hzero) (hnone target hheight)
      refine ⟨target, forkOf_of_active (contains_iff.mpr ⟨tip, htip, ?_⟩)⟩
      rw [← hsame]
      exact hroot
    | succ height ih =>
      intro target hheight
      cases hactive : node.contains target with
      | true => exact ⟨target, forkOf_of_active hactive⟩
      | false =>
        rw [forkOf_of_not_active hactive]
        cases hparent : node.tree.pprev target with
        | none =>
          have hroot := node.tree.height_root hparent
          omega
        | some parent =>
          have habove := node.tree.height_pprev hparent
          exact ih parent (by omega)
  exact hexists _ target rfl

theorem forkOf_of_no_tip (htip : node.tip = none) (target : B) :
    node.tree.forkOf node.contains target = none := by
  rw [← findFork_eq]
  unfold findFork
  rw [htip]

def leaving (node : Node B) (target : B) : List B :=
  match node.tip with
  | none => []
  | some tip => node.tree.path (fun block => node.findFork target = some block) tip

theorem path_fork_of_eq : node.tree.path (fun block => decide (some fork = some block)) fork = [] :=
  path_of_active (decide_eq_true rfl)

theorem path_fork_of_ne {parent : B} (hne : fork ≠ tip)
    (hparent : node.tree.pprev tip = some parent) :
    node.tree.path (fun block => decide (some fork = some block)) tip =
      tip :: node.tree.path (fun block => decide (some fork = some block)) parent :=
  path_of_pprev (decide_eq_false fun heq => hne (Option.some.inj heq)) hparent

theorem disconnectTo_above {rounds : ℕ} (htip : node.tip = some tip) (hne : fork ≠ tip) :
    disconnectTo validation (some fork) (rounds + 1) node =
      match node.disconnectTip validation with
      | .ok node => disconnectTo validation (some fork) rounds node
      | other => other := by
  have hgoes : ¬(node.tip = none ∨ node.tip = some fork) := by
    rw [htip]
    rintro (hnone | hsome)
    · cases hnone
    · exact hne (Option.some.inj hsome).symm
  rw [disconnectTo, if_neg hgoes]
  all_goals cases node.disconnectTip validation <;> rfl

theorem disconnectTo_at {rounds : ℕ} (htip : node.tip = some fork) :
    disconnectTo validation (some fork) rounds node = .ok node := by
  cases rounds with
  | zero => rfl
  | succ rounds => rw [disconnectTo, if_pos (.inr htip)]

omit [LinearOrder B] in
theorem exists_parent (hbelow : Ancestor node.tree fork tip) (hne : fork ≠ tip) :
    ∃ parent, node.tree.pprev tip = some parent ∧ Ancestor node.tree fork parent := by
  cases hbelow with
  | refl => exact absurd rfl hne
  | step hparent hbelow => exact ⟨_, hparent, hbelow⟩

theorem disconnectTo_fork {rounds : ℕ} :
    ∀ {node : Node B} {tip : B}, node.tip = some tip → Ancestor node.tree fork tip →
      node.tree.height tip ≤ node.tree.height fork + rounds →
      (∀ block ∈ node.tree.path (fun block => decide (some fork = some block)) tip,
        validation.disconnect block = none) →
      disconnectTo validation (some fork) rounds node = .ok { node with tip := some fork } := by
  induction rounds with
  | zero =>
    intro node tip htip hbelow hrounds _
    have hsame : fork = tip := hbelow.eq_of_height hrounds
    rw [hsame, ← htip]
    rfl
  | succ rounds ih =>
    intro node tip htip hbelow hrounds hworks
    by_cases hsame : fork = tip
    · subst hsame
      rw [disconnectTo_at htip, ← htip]
    obtain ⟨parent, hparent, habove⟩ := exists_parent hbelow hsame
    have hheight := node.tree.height_pprev hparent
    rw [path_fork_of_ne hsame hparent] at hworks
    rw [disconnectTo_above htip hsame]
    unfold disconnectTip
    rw [htip]
    dsimp only
    rw [hworks tip (.head _), hparent]
    have hbound : node.tree.height parent ≤ node.tree.height fork + rounds := by omega
    exact @ih { node with tip := some parent } parent rfl habove hbound
      fun block hblock => hworks block (.tail _ hblock)

/-- The first block that cannot be disconnected. -/
theorem disconnectTo_failing {rounds : ℕ} {rest : List B} {reason : String}
    (hfailing : validation.disconnect block = some reason) :
    ∀ {node : Node B} {tip : B} {front : List B}, node.tip = some tip →
      Ancestor node.tree fork tip → node.tree.height tip < node.tree.height fork + rounds →
      node.tree.path (fun block => decide (some fork = some block)) tip = front ++ block :: rest →
      (∀ other ∈ front, validation.disconnect other = none) →
      disconnectTo validation (some fork) rounds node =
        .error reason { node with tip := some block } := by
  induction rounds with
  | zero =>
    intro node tip front htip hbelow hrounds
    have hle := hbelow.height_le
    omega
  | succ rounds ih =>
    intro node tip front htip hbelow hrounds hpath hworks
    by_cases hsame : fork = tip
    · rw [← hsame, path_fork_of_eq] at hpath
      exact absurd hpath.symm (List.append_ne_nil_of_right_ne_nil _ (List.cons_ne_nil _ _))
    obtain ⟨parent, hparent, habove⟩ := exists_parent hbelow hsame
    have hheight := node.tree.height_pprev hparent
    rw [path_fork_of_ne hsame hparent] at hpath
    rw [disconnectTo_above htip hsame]
    unfold disconnectTip
    rw [htip]
    dsimp only
    cases front with
    | nil =>
      obtain ⟨rfl, -⟩ := List.cons.inj hpath
      rw [hfailing, ← htip]
    | cons head front =>
      obtain ⟨rfl, hrest⟩ := List.cons.inj hpath
      rw [hworks tip (.head _), hparent]
      have hbound : node.tree.height parent < node.tree.height fork + rounds := by omega
      exact @ih { node with tip := some parent } parent front rfl habove hbound hrest
        fun other hother => hworks other (.tail _ hother)

def atFork (node : Node B) (target : B) : Node B :=
  { node with tip := node.findFork target }

/-- A step when all blocks above the fork can be disconnected. -/
theorem step_eq (hworks : ∀ block ∈ node.leaving target, validation.disconnect block = none) :
    node.activateBestChainStep params validation target =
      connectPath params validation node.tip (node.tree.path node.contains target).reverse
        (node.atFork target) := by
  have hdone : disconnectTo validation (node.findFork target) node.chainLength node =
      .ok (node.atFork target) := by
    unfold atFork
    cases htip : node.tip with
    | none =>
      have hlength : node.chainLength = 0 := by
        unfold chainLength
        rw [htip]
      rw [findFork_eq, forkOf_of_no_tip htip, hlength, ← htip]
      rfl
    | some tip =>
      obtain ⟨fork, hfork⟩ := exists_fork htip target
      obtain ⟨hin, -⟩ := forkOf_spec hfork
      obtain ⟨other, hother, hbelow⟩ := contains_iff.mp hin
      rw [htip] at hother
      cases hother
      unfold leaving at hworks
      rw [htip] at hworks
      rw [findFork_eq, hfork] at hworks ⊢
      unfold chainLength
      rw [htip]
      exact disconnectTo_fork htip hbelow (by dsimp only; omega) hworks
  unfold activateBestChainStep
  rw [hdone]

/-- A step in which a block above the fork cannot be disconnected. -/
theorem step_failing {front rest : List B} {reason : String}
    (hleaving : node.leaving target = front ++ block :: rest)
    (hworks : ∀ other ∈ front, validation.disconnect other = none)
    (hfailing : validation.disconnect block = some reason) :
    node.activateBestChainStep params validation target =
      .error reason { node with tip := some block } := by
  unfold leaving at hleaving
  cases htip : node.tip with
  | none =>
    rw [htip] at hleaving
    exact absurd hleaving.symm (List.append_ne_nil_of_right_ne_nil _ (List.cons_ne_nil _ _))
  | some tip =>
    obtain ⟨fork, hfork⟩ := exists_fork htip target
    obtain ⟨hin, -⟩ := forkOf_spec hfork
    obtain ⟨other, hother, hbelow⟩ := contains_iff.mp hin
    rw [htip] at hother hleaving
    cases hother
    rw [findFork_eq, hfork] at hleaving
    have hdone : disconnectTo validation (node.findFork target) node.chainLength node =
        .error reason { node with tip := some block } := by
      rw [findFork_eq, hfork]
      unfold chainLength
      rw [htip]
      exact disconnectTo_failing hfailing htip hbelow (by dsimp only; omega) hleaving hworks
    unfold activateBestChainStep
    rw [hdone]

def Ready (node : Node B) (block : B) : Prop :=
  node.tree.haveData block = true ∧ node.selection.failed block = false

def Connects (node : Node B) (validation : Validation B) (block : B) : Prop :=
  node.Ready block ∧ ∃ upgradeRequired, validation.connect block = .connected upgradeRequired

def remaining (params : NodeParams) (node : Node B) (blocks : List B) : List B :=
  blocks.foldl (fun candidates block =>
    candidates.dropWhile fun candidate => node.less params candidate block) node.candidates

theorem remaining_eq_nil {front rest : List B} (hnil : remaining params node front = []) :
    remaining params node (front ++ rest) = [] := by
  unfold remaining at hnil ⊢
  rw [List.foldl_append, hnil]
  induction rest with
  | nil => rfl
  | cons block rest ih => exact ih

omit [LinearOrder B] in
theorem mem_dropWhile {drop : B → Bool} {blocks : List B} (hmem : block ∈ blocks)
    (hkeep : drop block = false) : block ∈ blocks.dropWhile drop := by
  rw [← List.takeWhile_append_dropWhile (p := drop) (l := blocks)] at hmem
  refine (List.mem_append.mp hmem).resolve_left fun htaken => ?_
  rw [List.mem_takeWhile_imp htaken] at hkeep
  cases hkeep

theorem mem_remaining {candidate : B} {blocks : List B} (hmem : candidate ∈ node.candidates)
    (hgood : ∀ block ∈ blocks, node.less params candidate block = false) :
    candidate ∈ remaining params node blocks := by
  have hleft : ∀ candidates : List B, candidate ∈ candidates →
      candidate ∈ blocks.foldl (fun candidates block =>
        candidates.dropWhile fun other => node.less params other block) candidates := by
    induction blocks with
    | nil => exact fun _ hin => hin
    | cons block blocks ih =>
      intro candidates hin
      exact ih (fun other hother => hgood other (.tail _ hother)) _
        (mem_dropWhile hin (hgood block (.head _)))
  exact hleft _ hmem

theorem candidates_of_remaining {blocks : List B} :
    ∀ candidate ∈ remaining params node blocks, candidate ∈ node.candidates := by
  have hsub : ∀ candidates : List B, (blocks.foldl (fun candidates block =>
      candidates.dropWhile fun other => node.less params other block) candidates).Sublist
        candidates := by
    induction blocks with
    | nil => exact List.Sublist.refl
    | cons block blocks ih =>
      exact fun candidates => (ih _).trans (List.dropWhile_sublist _)
  exact fun candidate hmem => (hsub _).subset hmem

structure Advanced (params : NodeParams) (node next : Node B) (done : List B) : Prop where
  tree : next.tree = node.tree
  failed : ∀ block, next.selection.failed block = node.selection.failed block
  tip : next.tip = done.getLast?.or node.tip
  attempts : next.attempts = node.attempts ++ done.map fun block => (block, true)
  candidates : next.candidates = remaining params node done
  index : next.index = node.index
  txCount : next.txCount = node.txCount
  banned : next.banned = node.banned
  unlinked : next.unlinked = node.unlinked
  valid : ∀ block, node.validity block ≤ next.validity block

theorem Advanced.refl (params : NodeParams) (node : Node B) : Advanced params node node [] where
  tree := rfl
  failed _ := rfl
  tip := rfl
  attempts := by simp
  candidates := rfl
  index := rfl
  txCount := rfl
  banned := rfl
  unlinked := rfl
  valid _ := Nat.le_refl _

theorem Advanced.less {done : List B} (hadvanced : Advanced params node next done) :
    next.less params = node.less params := by
  unfold Node.less ChainEnv.less env
  rw [hadvanced.tree]

theorem Advanced.remaining {done more : List B} (hadvanced : Advanced params node next done) :
    remaining params next more = remaining params node (done ++ more) := by
  unfold Node.remaining
  rw [List.foldl_append, hadvanced.less, hadvanced.candidates]
  rfl

theorem Advanced.trans {last : Node B} {done more : List B}
    (hfirst : Advanced params node next done) (hsecond : Advanced params next last more) :
    Advanced params node last (done ++ more) where
  tree := hsecond.tree.trans hfirst.tree
  failed block := (hsecond.failed block).trans (hfirst.failed block)
  tip := by
    rw [hsecond.tip, hfirst.tip, List.getLast?_append, Option.or_assoc]
  attempts := by
    rw [hsecond.attempts, hfirst.attempts, List.map_append, List.append_assoc]
  candidates := by
    rw [hsecond.candidates, hfirst.remaining]
  index := hsecond.index.trans hfirst.index
  txCount := hsecond.txCount.trans hfirst.txCount
  banned := hsecond.banned.trans hfirst.banned
  unlinked := hsecond.unlinked.trans hfirst.unlinked
  valid block := Nat.le_trans (hfirst.valid block) (hsecond.valid block)

theorem Advanced.ready {done : List B} (hadvanced : Advanced params node next done) :
    next.Ready block ↔ node.Ready block := by
  unfold Ready
  rw [hadvanced.tree, hadvanced.failed]

theorem Advanced.connects {done : List B} (hadvanced : Advanced params node next done) :
    next.Connects validation block ↔ node.Connects validation block := by
  unfold Connects
  rw [hadvanced.ready]

theorem raiseValidity_eq (upTo : ℕ) (block : B) : ∃ validity,
    node.raiseValidity upTo block = { node with validity := validity } ∧
      ∀ other, node.validity other ≤ validity other := by
  unfold raiseValidity
  split
  · exact ⟨node.validity, rfl, fun _ => Nat.le_refl _⟩
  refine ⟨_, rfl, fun other => ?_⟩
  by_cases hsame : other = block
  · rw [hsame, Function.update_self]
    exact Nat.le_max_left _ _
  rw [Function.update_of_ne hsame]

theorem prune_cases (htip : node.tip = some tip) :
    remaining params node [tip] = [] ∧ node.pruneBlockIndexCandidates params = none ∨
      remaining params node [tip] ≠ [] ∧ node.pruneBlockIndexCandidates params =
        some (node.setCandidates (remaining params node [tip])) := by
  unfold pruneBlockIndexCandidates remaining
  rw [htip, List.foldl_cons]
  dsimp only
  cases node.candidates.dropWhile fun candidate => node.less params candidate tip with
  | nil => exact .inl ⟨rfl, rfl⟩
  | cons first rest => exact .inr ⟨List.cons_ne_nil _ _, rfl⟩

theorem exists_of_pruned (hpruned : node.pruneBlockIndexCandidates params = some next) :
    ∃ candidates, next = node.setCandidates candidates := by
  unfold pruneBlockIndexCandidates at hpruned
  split at hpruned
  · cases hpruned
  split at hpruned
  · cases hpruned
  cases hpruned
  exact ⟨_, rfl⟩

/-- Connecting one block, and pruning: the assertion fails when all candidates are worse. -/
theorem connectTip_connected {upgradeRequired : Bool} (hparent : node.tree.pprev block = node.tip)
    (hready : node.Ready block) (hconnect : validation.connect block = .connected upgradeRequired) :
    ∃ connected, node.connectTip params validation block =
        some (.connected upgradeRequired, connected) ∧
      (remaining params node [block] = [] ∧ connected.pruneBlockIndexCandidates params = none ∨
        ∃ pruned, connected.pruneBlockIndexCandidates params = some pruned ∧
          remaining params node [block] ≠ [] ∧ Advanced params node pruned [block]) := by
  obtain ⟨hdata, hfailed⟩ := hready
  obtain ⟨validity, hraise, hvalid⟩ := @raiseValidity_eq B _
    { node with attempts := node.attempts ++ [(block, true)] } BLOCK_VALID_SCRIPTS block
  refine ⟨{ node with
    attempts := node.attempts ++ [(block, true)]
    validity := validity
    tip := some block }, ?_, ?_⟩
  · unfold connectTip
    rw [if_neg (not_not.mpr hparent)]
    dsimp only
    rw [hdata, hfailed, if_neg (not_not.mpr rfl), hconnect]
    rw [Bool.not_false, Bool.and_true, hraise]
  obtain ⟨hnil, hnone⟩ | ⟨hleft, hsome⟩ := @prune_cases B _ params
    { node with
      attempts := node.attempts ++ [(block, true)]
      validity := validity
      tip := some block } block rfl
  · exact .inl ⟨hnil, hnone⟩
  refine .inr ⟨_, hsome, hleft, ?_⟩
  exact {
    tree := rfl
    failed := fun _ => rfl
    tip := rfl
    attempts := rfl
    candidates := rfl
    index := rfl
    txCount := rfl
    banned := rfl
    unlinked := rfl
    valid := hvalid }

/-- The blocks of a path that connect are connected, up to where the step ends; or the assertion
fails because no candidate is left. -/
theorem connectPath_front {oldTip : Option B} {front rest : List B} :
    ∀ {node : Node B}, Climbs node.tree node.tip (front ++ rest) →
      (∀ block ∈ front, node.Connects validation block) →
      (front ≠ [] ∧ remaining params node front = [] ∧
        connectPath params validation oldTip (front ++ rest) node = .stopped) ∨
      ∃ done todo next, front = done ++ todo ∧ Advanced params node next done ∧
        (done ≠ [] → remaining params node done ≠ []) ∧
        (done ≠ [] ∧ connectPath params validation oldTip (front ++ rest) node = .ok next ∨
          todo = [] ∧ connectPath params validation oldTip (front ++ rest) node =
            connectPath params validation oldTip rest next) := by
  induction front with
  | nil =>
    exact fun _ _ => .inr ⟨[], [], _, rfl, .refl params _, fun hne => absurd rfl hne,
      .inr ⟨rfl, rfl⟩⟩
  | cons block front ih =>
    intro node hclimbs hconnects
    obtain ⟨hready, upgradeRequired, hconnect⟩ := hconnects block (.head _)
    obtain ⟨connected, htip, hpruned⟩ := @connectTip_connected B _ params validation node block
      upgradeRequired hclimbs.1 hready hconnect
    rw [List.cons_append, connectPath, htip]
    dsimp only
    obtain ⟨hnil, hnone⟩ | ⟨pruned, hsome, hleft, hadvanced⟩ := hpruned
    · rw [hnone]
      exact .inl ⟨List.cons_ne_nil _ _, remaining_eq_nil hnil, rfl⟩
    rw [hsome]
    dsimp only
    split
    · exact .inr ⟨[block], front, pruned, rfl, hadvanced, fun _ => hleft,
        .inl ⟨List.cons_ne_nil _ _, rfl⟩⟩
    have hclimbs' : Climbs pruned.tree pruned.tip (front ++ rest) := by
      rw [hadvanced.tree, hadvanced.tip]
      exact hclimbs.2
    obtain ⟨-, hnil, hstopped⟩ | ⟨done, todo, next, hfront, hnext, hkept, hends⟩ :=
      ih hclimbs' fun other hother =>
        hadvanced.connects.mpr (hconnects other (.tail _ hother))
    · rw [hadvanced.remaining] at hnil
      exact .inl ⟨List.cons_ne_nil _ _, hnil, hstopped⟩
    refine .inr ⟨block :: done, todo, next, by rw [hfront]; rfl, hadvanced.trans hnext,
      fun _ => ?_, hends.imp (fun hdone => ⟨List.cons_ne_nil _ _, hdone.2⟩) id⟩
    cases done with
    | nil => exact hleft
    | cons other done =>
      have hleft' := hkept (List.cons_ne_nil _ _)
      rw [hadvanced.remaining] at hleft'
      exact hleft'

end Amberchain.BestChain.Node
