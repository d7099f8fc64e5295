import Amberchain.BestChain.Node

/-!
# The active chain

What is in the active chain are the ancestors of its tip.  The path of a block ends above the
fork, and as the tip climbs along it the path gets shorter from below.
-/

namespace Amberchain.BestChain

variable {B : Type}

namespace BlockTree

variable {tree : BlockTree B} {first block target : B} {active : B → Bool}

/-- A block is found at its height exactly from what is above it. -/
theorem getAncestor_eq_iff :
    tree.getAncestor block (tree.height first) = some first ↔ Ancestor tree first block := by
  constructor
  · intro hfound
    by_cases hheight : tree.height first ≤ tree.height block
    · obtain ⟨found, hget, hancestor, -⟩ := @getAncestor_spec B tree block _ hheight
      rw [hget] at hfound
      cases hfound
      exact hancestor
    unfold getAncestor at hfound
    rw [if_pos (Nat.lt_of_not_le hheight)] at hfound
    cases hfound
  intro hancestor
  obtain ⟨found, hget, hfound, hheight⟩ := getAncestor_spec hancestor.height_le
  rw [hget]
  cases hfound.linear hancestor with
  | inl hbefore => rw [hbefore.eq_of_height (Nat.le_of_eq hheight.symm)]
  | inr hafter => rw [hafter.eq_of_height (Nat.le_of_eq hheight)]

theorem getAncestor_pprev {parent : B} {height : ℕ} (hparent : tree.pprev block = some parent)
    (hheight : height ≤ tree.height parent) :
    tree.getAncestor block height = tree.getAncestor parent height := by
  have habove := tree.height_pprev hparent
  have hsteps : tree.height block - height = (tree.height parent - height) + 1 := by omega
  unfold getAncestor
  rw [if_neg (by omega), if_neg (by omega), hsteps, walkBack, hparent, Option.bind_some]

theorem not_active_of_mem_path (hmem : block ∈ tree.path active target) : active block = false := by
  obtain ⟨front, rest, hpath⟩ := List.append_of_mem hmem
  cases hactive : active block with
  | true =>
    have hnil := path_of_append hpath
    rw [path_of_active hactive] at hnil
    cases hnil
  | false => rfl

def forkOf (tree : BlockTree B) (active : B → Bool) (block : B) : Option B :=
  match (tree.path active block).getLast? with
  | none => some block
  | some last => tree.pprev last

theorem forkOf_of_active (hactive : active block = true) :
    tree.forkOf active block = some block := by
  unfold forkOf
  rw [path_of_active hactive]
  rfl

theorem forkOf_of_not_active (hnot : active block = false) :
    tree.forkOf active block = (tree.pprev block).bind (tree.forkOf active) := by
  cases hparent : tree.pprev block with
  | none =>
    unfold forkOf
    rw [path_of_root hnot hparent]
    exact hparent
  | some parent =>
    rw [Option.bind_some]
    unfold forkOf
    rw [path_of_pprev hnot hparent]
    cases hpath : tree.path active parent with
    | nil =>
      exact hparent
    | cons other rest =>
      rw [List.getLast?_cons_cons]
      cases hlast : (other :: rest).getLast? with
      | none => exact absurd (List.getLast?_eq_none_iff.mp hlast) (List.cons_ne_nil _ _)
      | some last => rfl

/-- The fork is in the active chain and below the block. -/
theorem forkOf_spec {fork : B} (hfork : tree.forkOf active block = some fork) :
    active fork = true ∧ Ancestor tree fork block := by
  have hbelow : ∀ (height : ℕ) (block : B), tree.height block = height →
      tree.forkOf active block = some fork → active fork = true ∧ Ancestor tree fork block := by
    intro height
    induction height with
    | zero =>
      intro block hheight hfork
      cases hactive : active block with
      | true =>
        rw [forkOf_of_active hactive] at hfork
        cases hfork
        exact ⟨hactive, .refl⟩
      | false =>
        rw [forkOf_of_not_active hactive] at hfork
        obtain ⟨parent, hparent, -⟩ := Option.bind_eq_some_iff.mp hfork
        have habove := tree.height_pprev hparent
        omega
    | succ height ih =>
      intro block hheight hfork
      cases hactive : active block with
      | true =>
        rw [forkOf_of_active hactive] at hfork
        cases hfork
        exact ⟨hactive, .refl⟩
      | false =>
        rw [forkOf_of_not_active hactive] at hfork
        obtain ⟨parent, hparent, hrest⟩ := Option.bind_eq_some_iff.mp hfork
        have habove := tree.height_pprev hparent
        obtain ⟨hin, hancestor⟩ := ih parent (by omega) hrest
        exact ⟨hin, .step hparent hancestor⟩
  exact hbelow _ block rfl hfork

theorem mem_path_or_fork (hancestor : Ancestor tree first block) : first ∈ tree.path active block ∨
      ∃ fork, tree.forkOf active block = some fork ∧ Ancestor tree first fork := by
  induction hancestor with
  | refl =>
    cases hactive : active first with
    | true => exact .inr ⟨first, forkOf_of_active hactive, .refl⟩
    | false => exact .inl (self_mem_path (path_ne_nil hactive))
  | @step block parent hparent hbelow ih =>
    cases hactive : active block with
    | true => exact .inr ⟨block, forkOf_of_active hactive, .step hparent hbelow⟩
    | false =>
      rw [path_of_pprev hactive hparent, forkOf_of_not_active hactive, hparent]
      exact ih.imp_left (List.mem_cons_of_mem _)

def Climbs (tree : BlockTree B) : Option B → List B → Prop
  | _, [] => True
  | tip, block :: rest => tree.pprev block = tip ∧ Climbs tree (some block) rest

theorem Climbs.append {up more : List B} {tip : Option B} : Climbs tree tip (up ++ more) ↔
      Climbs tree tip up ∧ Climbs tree (up.getLast?.or tip) more := by
  induction up generalizing tip with
  | nil => simp [Climbs]
  | cons block up ih =>
    have hlast : (block :: up).getLast?.or tip = up.getLast?.or (some block) := by
      cases up with
      | nil => rfl
      | cons other rest =>
        rw [List.getLast?_cons_cons]
        cases hget : (other :: rest).getLast? with
        | none => exact absurd (List.getLast?_eq_none_iff.mp hget) (List.cons_ne_nil _ _)
        | some last => rfl
    rw [List.cons_append, Climbs, Climbs, ih, hlast, and_assoc]

theorem climbs_path : Climbs tree (tree.forkOf active block) (tree.path active block).reverse := by
  have hclimbs : ∀ (path : List B) (block : B), tree.path active block = path →
      Climbs tree (tree.forkOf active block) path.reverse := by
    intro path
    induction path with
    | nil => exact fun _ _ => trivial
    | cons head path ih =>
      intro block hpath
      have hnot : active block = false := by
        cases hactive : active block with
        | true =>
          rw [path_of_active hactive] at hpath
          cases hpath
        | false => rfl
      rw [forkOf_of_not_active hnot, List.reverse_cons, Climbs.append]
      cases hparent : tree.pprev block with
      | none =>
        rw [path_of_root hnot hparent] at hpath
        cases hpath
        exact ⟨trivial, hparent, trivial⟩
      | some parent =>
        rw [path_of_pprev hnot hparent] at hpath
        obtain ⟨rfl, hrest⟩ := List.cons.inj hpath
        refine ⟨ih parent hrest, ?_, trivial⟩
        rw [hparent, Option.bind_some, List.getLast?_reverse]
        cases path with
        | nil =>
          have hactive : active parent = true := by
            by_contra hfalse
            exact path_ne_nil (Bool.eq_false_iff.mpr hfalse) hrest
          rw [forkOf_of_active hactive]
          rfl
        | cons other rest =>
          obtain ⟨tail, hcons⟩ := @path_eq_cons B tree parent active
            (by rw [hrest]; exact List.cons_ne_nil _ _)
          rw [hrest] at hcons
          rw [(List.cons.inj hcons).1]
          rfl
  exact hclimbs _ block rfl

theorem Climbs.ancestor {up : List B} {tip : B} (hclimbs : Climbs tree (some tip) up) :
    ∀ other ∈ up, Ancestor tree tip other ∧ tree.height tip < tree.height other := by
  induction up generalizing tip with
  | nil => exact fun other hother => absurd hother List.not_mem_nil
  | cons block up ih =>
    intro other hother
    have hparent := hclimbs.1
    have habove := tree.height_pprev hparent
    cases List.mem_cons.mp hother with
    | inl heq =>
      rw [heq]
      exact ⟨.step hparent .refl, by omega⟩
    | inr hmem =>
      obtain ⟨hancestor, hheight⟩ := ih hclimbs.2 other hmem
      exact ⟨(Ancestor.step hparent .refl).trans hancestor, by omega⟩

/-- What climbs to a block from a block of another chain is the path from there. -/
theorem path_of_climbs {up : List B} {tip : B} (hclimbs : Climbs tree (some tip) up)
    (hactive : active tip = true) (hnot : ∀ block ∈ up, active block = false)
    (htarget : up.getLast?.or (some tip) = some target) : tree.path active target = up.reverse := by
  induction up using List.reverseRecOn generalizing target with
  | nil =>
    cases htarget
    exact path_of_active hactive
  | append_singleton up last ih =>
    rw [List.getLast?_append] at htarget
    have heq : last = target := Option.some.inj htarget
    subst heq
    obtain ⟨hup, hparent, -⟩ := Climbs.append.mp hclimbs
    have hlast := hnot last (List.mem_append_right _ (.head _))
    rw [List.reverse_append, List.reverse_singleton, List.singleton_append]
    cases hbelow : up.getLast?.or (some tip) with
    | none =>
      cases hget : up.getLast? with
      | none =>
        rw [hget] at hbelow
        cases hbelow
      | some other =>
        rw [hget] at hbelow
        cases hbelow
    | some parent =>
      rw [hbelow] at hparent
      rw [path_of_pprev hlast hparent,
        ih hup (fun block hmem => hnot block (List.mem_append_left _ hmem)) hbelow]

end BlockTree

namespace Node

open BlockTree

variable [LinearOrder B] {params : NodeParams} {node : Node B} {block target : B}

theorem contains_iff :
    node.contains block = true ↔ ∃ tip, node.tip = some tip ∧ Ancestor node.tree block tip := by
  unfold contains
  cases htip : node.tip with
  | none => simp
  | some tip =>
    rw [decide_eq_true_iff, getAncestor_eq_iff]
    constructor
    · exact fun hancestor => ⟨tip, rfl, hancestor⟩
    rintro ⟨other, hother, hancestor⟩
    cases hother
    exact hancestor

theorem contains_of_pprev {next : Node B} (hpprev : next.tree.pprev = node.tree.pprev)
    (htip : next.tip = node.tip) (hactive : next.contains block = true) :
    node.contains block = true := by
  obtain ⟨tip, hnext, hancestor⟩ := contains_iff.mp hactive
  refine contains_iff.mpr ⟨tip, htip.symm.trans hnext, ?_⟩
  clear hnext
  induction hancestor with
  | refl => exact .refl
  | step hparent _ ih =>
    rw [hpprev] at hparent
    exact .step hparent ih

theorem contains_tip {tip : B} (htip : node.tip = some tip) : node.contains tip = true :=
  contains_iff.mpr ⟨tip, htip, .refl⟩

theorem not_contains_of_height {tip : B} (htip : node.tip = some tip)
    (hheight : node.tree.height tip < node.tree.height block) : node.contains block = false := by
  refine Bool.eq_false_iff.mpr fun hcontains => ?_
  obtain ⟨other, hother, hancestor⟩ := contains_iff.mp hcontains
  rw [htip] at hother
  cases hother
  exact absurd hancestor.height_le (Nat.not_le.mpr hheight)

theorem forkFrom_eq : ∀ {rounds : ℕ} {block : B}, node.tree.height block < rounds →
    node.forkFrom rounds block = node.tree.forkOf node.contains block := by
  intro rounds
  induction rounds with
  | zero => exact fun hrounds => absurd hrounds (Nat.not_lt_zero _)
  | succ rounds ih =>
    intro block hrounds
    unfold forkFrom
    cases hactive : node.contains block with
    | true => rw [if_pos rfl, forkOf_of_active hactive]
    | false =>
      rw [forkOf_of_not_active hactive]
      cases hparent : node.tree.pprev block with
      | none => rfl
      | some parent =>
        have habove := node.tree.height_pprev hparent
        exact ih (by omega)

/-- `FindFork` finds where the path leaves the active chain. -/
theorem findFork_eq (node : Node B) (block : B) :
    node.findFork block = node.tree.forkOf node.contains block := by
  unfold findFork
  cases htip : node.tip with
  | none =>
    have hnot : ∀ block, node.contains block = false := by
      intro block
      unfold contains
      rw [htip]
    have hnone : ∀ (height : ℕ) (block : B), node.tree.height block = height →
        node.tree.forkOf node.contains block = none := by
      intro height
      induction height with
      | zero =>
        intro block hheight
        rw [forkOf_of_not_active (hnot block)]
        cases hparent : node.tree.pprev block with
        | none => rfl
        | some parent =>
          have habove := node.tree.height_pprev hparent
          omega
      | succ height ih =>
        intro block hheight
        rw [forkOf_of_not_active (hnot block)]
        cases hparent : node.tree.pprev block with
        | none => rfl
        | some parent =>
          have habove := node.tree.height_pprev hparent
          exact ih parent (by omega)
    exact (hnone _ block rfl).symm
  | some tip =>
    dsimp only
    split
    · rename_i htall
      have hdown : ∀ (more : ℕ) (block : B), node.tree.height block = node.tree.height tip + more →
          (node.tree.getAncestor block (node.tree.height tip)).bind
            (node.forkFrom (node.tree.height tip + 1)) =
            node.tree.forkOf node.contains block := by
        intro more
        induction more with
        | zero =>
          intro block hheight
          unfold getAncestor
          rw [if_neg (by omega), show node.tree.height block - node.tree.height tip = 0 by omega]
          exact forkFrom_eq (by omega)
        | succ more ih =>
          intro block hheight
          rw [forkOf_of_not_active (not_contains_of_height htip (by omega))]
          cases hparent : node.tree.pprev block with
          | none =>
            have hroot := node.tree.height_root hparent
            omega
          | some parent =>
            have habove := node.tree.height_pprev hparent
            rw [getAncestor_pprev hparent (by omega)]
            exact ih parent (by omega)
      exact hdown (node.tree.height block - node.tree.height tip) block (by omega)
    exact forkFrom_eq (Nat.lt_succ_self _)

end Node

end Amberchain.BestChain
