import Mathlib.Data.Int.Notation
import Mathlib.Tactic.Common

/-!
# Block tree

Block indexes under their parents, ancestors, and `LastCommonAncestor`.
-/

namespace Amberchain.BestChain

/-- `CBlockIndex`: what does not change while a chain is chosen. -/
structure BlockTree (B : Type) where
  pprev : B → Option B
  height : B → ℕ
  chainWork : B → ℕ
  canMine : B → ℕ
  heightMinedByMe : B → ℤ
  sequenceId : B → ℕ
  haveData : B → Bool
  chainTx : B → ℕ
  height_pprev : ∀ {child parent}, pprev child = some parent → height child = height parent + 1
  height_root : ∀ {root}, pprev root = none → height root = 0
  root_unique : ∀ {first second}, pprev first = none → pprev second = none → first = second

namespace BlockTree

variable {B : Type} (tree : BlockTree B)

def walkBack : ℕ → B → Option B
  | 0, block => some block
  | steps + 1, block => (tree.pprev block).bind (walkBack steps)

/-- `GetAncestor`; the skip list finds the same block faster. -/
def getAncestor (block : B) (height : ℕ) : Option B :=
  if height > tree.height block then none else tree.walkBack (tree.height block - height) block

/-- The loop of `LastCommonAncestor` on two blocks of one height. -/
def meet [DecidableEq B] : ℕ → B → B → Option B
  | rounds, first, second =>
    if first = second then some first
    else
      match rounds with
      | 0 => none
      | rounds + 1 =>
        match tree.pprev first, tree.pprev second with
        | some first, some second => meet rounds first second
        | _, _ => none

/-- `LastCommonAncestor`; none when the assertion fails. -/
def lastCommonAncestor [DecidableEq B] (first second : B) : Option B :=
  let low := min (tree.height first) (tree.height second)
  match tree.getAncestor first low, tree.getAncestor second low with
  | some first, some second => tree.meet low first second
  | _, _ => none

def branch (active : B → Bool) : ℕ → B → List B
  | 0, _ => []
  | rounds + 1, block =>
    if active block then []
    else
      block ::
        match tree.pprev block with
        | none => []
        | some parent => branch active rounds parent

def path (active : B → Bool) (block : B) : List B :=
  tree.branch active (tree.height block + 1) block

variable {tree}

/-- The first block is the second one or before it. -/
inductive Ancestor (tree : BlockTree B) (first : B) : B → Prop where
  | refl : Ancestor tree first first
  | step {block parent : B} (hparent : tree.pprev block = some parent)
      (hancestor : Ancestor tree first parent) : Ancestor tree first block

variable {first second block : B} {active : B → Bool}

theorem Ancestor.height_le (hancestor : Ancestor tree first block) :
    tree.height first ≤ tree.height block := by
  induction hancestor with
  | refl => exact Nat.le_refl _
  | step hparent _ ih =>
    rw [tree.height_pprev hparent]
    exact Nat.le_succ_of_le ih

theorem Ancestor.trans (hfirst : Ancestor tree first second) (hsecond : Ancestor tree second block) :
    Ancestor tree first block := by
  induction hsecond with
  | refl => exact hfirst
  | step hparent _ ih => exact .step hparent ih

theorem Ancestor.eq_of_height (hancestor : Ancestor tree first block)
    (hheight : tree.height block ≤ tree.height first) : first = block := by
  cases hancestor with
  | refl => rfl
  | step hparent hrest =>
    have hle := hrest.height_le
    rw [tree.height_pprev hparent] at hheight
    omega

theorem Ancestor.linear (hfirst : Ancestor tree first block) (hsecond : Ancestor tree second block) :
    Ancestor tree first second ∨ Ancestor tree second first := by
  induction hfirst with
  | refl => exact .inr hsecond
  | @step block parent hparent hfirst ih =>
    cases hsecond with
    | refl => exact .inl (.step hparent hfirst)
    | step hparent' hsecond =>
      rw [hparent] at hparent'
      cases hparent'
      exact ih hsecond

theorem walkBack_spec : ∀ {steps : ℕ} {block : B}, steps ≤ tree.height block →
      ∃ found, tree.walkBack steps block = some found ∧ Ancestor tree found block ∧
        tree.height found + steps = tree.height block := by
  intro steps
  induction steps with
  | zero => exact fun {block} _ => ⟨block, rfl, .refl, rfl⟩
  | succ steps ih =>
    intro block hsteps
    cases hparent : tree.pprev block with
    | none =>
      have hroot := tree.height_root hparent
      omega
    | some parent =>
      have hheight := tree.height_pprev hparent
      obtain ⟨found, hfound, hancestor, hsum⟩ := @ih parent (by omega)
      refine ⟨found, ?_, .step hparent hancestor, by omega⟩
      unfold walkBack
      rw [hparent]
      exact hfound

theorem getAncestor_spec {height : ℕ} (hheight : height ≤ tree.height block) :
    ∃ found, tree.getAncestor block height = some found ∧ Ancestor tree found block ∧
      tree.height found = height := by
  obtain ⟨found, hfound, hancestor, hsum⟩ :=
    @walkBack_spec B tree (tree.height block - height) block (Nat.sub_le _ _)
  refine ⟨found, ?_, hancestor, by omega⟩
  unfold getAncestor
  rw [if_neg (Nat.not_lt.mpr hheight)]
  exact hfound

variable [DecidableEq B]

theorem meet_spec : ∀ {rounds : ℕ} {first second : B}, tree.height first ≤ rounds →
      tree.height first = tree.height second →
      ∃ found, tree.meet rounds first second = some found ∧ Ancestor tree found first ∧
        Ancestor tree found second := by
  intro rounds
  induction rounds with
  | zero =>
    intro first second hrounds hsame
    have hroot : ∀ block : B, tree.height block = 0 → tree.pprev block = none := by
      intro block hzero
      cases hparent : tree.pprev block with
      | none => rfl
      | some parent =>
        have hheight := tree.height_pprev hparent
        omega
    have heq : first = second := tree.root_unique (hroot first (by omega)) (hroot second (by omega))
    subst heq
    exact ⟨first, if_pos rfl, .refl, .refl⟩
  | succ rounds ih =>
    intro first second hrounds hsame
    by_cases heq : first = second
    · subst heq
      exact ⟨first, by unfold meet; exact if_pos rfl, .refl, .refl⟩
    cases hfirst : tree.pprev first with
    | none =>
      have hzero := tree.height_root hfirst
      cases hsecond : tree.pprev second with
      | none => exact absurd (tree.root_unique hfirst hsecond) heq
      | some parent =>
        have hheight := tree.height_pprev hsecond
        omega
    | some firstParent =>
      have hfirstHeight := tree.height_pprev hfirst
      cases hsecond : tree.pprev second with
      | none =>
        have hzero := tree.height_root hsecond
        omega
      | some secondParent =>
        have hsecondHeight := tree.height_pprev hsecond
        obtain ⟨found, hfound, hleft, hright⟩ := @ih firstParent secondParent (by omega) (by omega)
        refine ⟨found, ?_, .step hfirst hleft, .step hsecond hright⟩
        unfold meet
        rw [if_neg heq]
        rw [hfirst, hsecond]
        exact hfound

/-- The last common ancestor is one, and one of the two blocks when that is an ancestor of
the other one. -/
theorem lastCommonAncestor_spec (first second : B) :
    ∃ found, tree.lastCommonAncestor first second = some found ∧ Ancestor tree found first ∧
      Ancestor tree found second ∧ (Ancestor tree first second → found = first) ∧
      (Ancestor tree second first → found = second) := by
  obtain ⟨left, hleft, hleftOf, hleftHeight⟩ := @getAncestor_spec B tree first
    (min (tree.height first) (tree.height second)) (Nat.min_le_left _ _)
  obtain ⟨right, hright, hrightOf, hrightHeight⟩ := @getAncestor_spec B tree second
    (min (tree.height first) (tree.height second)) (Nat.min_le_right _ _)
  obtain ⟨found, hfound, hfoundLeft, hfoundRight⟩ :=
    @meet_spec B tree _ (min (tree.height first) (tree.height second)) left right
      (Nat.le_of_eq hleftHeight) (hleftHeight.trans hrightHeight.symm)
  have hmeet : ∀ {low : ℕ}, left = right → tree.meet low left right = some left := by
    intro low hsame
    unfold meet
    exact if_pos hsame
  refine ⟨found, ?_, hfoundLeft.trans hleftOf, hfoundRight.trans hrightOf, fun hanc => ?_,
    fun hanc => ?_⟩
  · unfold lastCommonAncestor
    dsimp only
    rw [hleft, hright]
    exact hfound
  · have hle := hanc.height_le
    have hleftEq : left = first := hleftOf.eq_of_height (by omega)
    have hrightEq : right = first := by
      cases hrightOf.linear hanc with
      | inl hbefore => exact hbefore.eq_of_height (by omega)
      | inr hafter => exact (hafter.eq_of_height (by omega)).symm
    rw [hmeet (hleftEq.trans hrightEq.symm)] at hfound
    exact (Option.some.inj hfound).symm.trans hleftEq
  have hle := hanc.height_le
  have hrightEq : right = second := hrightOf.eq_of_height (by omega)
  have hleftEq : left = second := by
    cases hleftOf.linear hanc with
    | inl hbefore => exact hbefore.eq_of_height (by omega)
    | inr hafter => exact (hafter.eq_of_height (by omega)).symm
  rw [hmeet (hleftEq.trans hrightEq.symm)] at hfound
  exact (Option.some.inj hfound).symm.trans hleftEq

omit [DecidableEq B]

theorem path_of_active (hactive : active block = true) : tree.path active block = [] := by
  exact if_pos hactive

theorem path_of_root (hnot : active block = false) (hroot : tree.pprev block = none) :
    tree.path active block = [block] := by
  unfold path branch
  rw [if_neg (Bool.eq_false_iff.mp hnot), hroot]

theorem path_of_pprev {parent : B} (hnot : active block = false)
    (hparent : tree.pprev block = some parent) :
    tree.path active block = block :: tree.path active parent := by
  unfold path
  conv_lhs => unfold branch
  rw [if_neg (Bool.eq_false_iff.mp hnot), hparent, tree.height_pprev hparent]

theorem path_of_append {front rest : List B} :
    ∀ {start : B}, tree.path active start = front ++ block :: rest →
      tree.path active block = block :: rest := by
  induction front with
  | nil =>
    intro start hpath
    cases hactive : active start with
    | true =>
      rw [path_of_active hactive] at hpath
      cases hpath
    | false =>
      have hhead : start = block := by
        cases hparent : tree.pprev start with
        | none =>
          rw [path_of_root hactive hparent] at hpath
          exact (List.cons.inj hpath).1
        | some parent =>
          rw [path_of_pprev hactive hparent] at hpath
          exact (List.cons.inj hpath).1
      rw [← hhead, hpath, hhead]
      rfl
  | cons first front ih =>
    intro start hpath
    cases hactive : active start with
    | true =>
      rw [path_of_active hactive] at hpath
      cases hpath
    | false =>
      cases hparent : tree.pprev start with
      | none =>
        rw [path_of_root hactive hparent] at hpath
        have htail := (List.cons.inj hpath).2
        cases front with
        | nil => cases htail
        | cons second front => cases htail
      | some parent =>
        rw [path_of_pprev hactive hparent] at hpath
        exact ih (List.cons.inj hpath).2

theorem mem_path_trans {start : B} (hblock : block ∈ tree.path active start)
    (hfirst : first ∈ tree.path active block) : first ∈ tree.path active start := by
  obtain ⟨front, rest, hpath⟩ := List.append_of_mem hblock
  rw [path_of_append hpath] at hfirst
  rw [hpath]
  exact List.mem_append_right _ hfirst

theorem ancestor_of_mem_path :
    ∀ {start : B}, block ∈ tree.path active start → Ancestor tree block start := by
  have hrounds : ∀ (rounds : ℕ) (start : B), block ∈ tree.branch active rounds start →
      Ancestor tree block start := by
    intro rounds
    induction rounds with
    | zero => exact fun start hmem => absurd hmem List.not_mem_nil
    | succ rounds ih =>
      intro start hmem
      unfold branch at hmem
      split at hmem
      · cases hmem
      cases List.mem_cons.mp hmem with
      | inl heq =>
        rw [heq]
        exact .refl
      | inr htail =>
        cases hparent : tree.pprev start with
        | none =>
          rw [hparent] at htail
          cases htail
        | some parent =>
          rw [hparent] at htail
          exact .step hparent (ih parent htail)
  exact fun {start} hmem => hrounds _ start hmem

theorem path_eq_cons (hne : tree.path active block ≠ []) :
    ∃ rest, tree.path active block = block :: rest := by
  cases hactive : active block with
  | true => exact absurd (path_of_active hactive) hne
  | false =>
    cases hparent : tree.pprev block with
    | none => exact ⟨[], path_of_root hactive hparent⟩
    | some parent => exact ⟨_, path_of_pprev hactive hparent⟩

theorem path_ne_nil (hnot : active block = false) : tree.path active block ≠ [] := by
  intro hnil
  cases hparent : tree.pprev block with
  | none =>
    rw [path_of_root hnot hparent] at hnil
    cases hnil
  | some parent =>
    rw [path_of_pprev hnot hparent] at hnil
    cases hnil

theorem self_mem_path (hne : tree.path active block ≠ []) : block ∈ tree.path active block := by
  obtain ⟨rest, hpath⟩ := path_eq_cons hne
  rw [hpath]
  exact .head _

/-- The chain that is removed begins with the chosen block. -/
theorem self_mem_of_append {front rest : List B}
    (hpath : tree.path active first = front ++ block :: rest) : first ∈ front ++ [block] := by
  obtain ⟨tail, hcons⟩ := @path_eq_cons B tree first active
    (by rw [hpath]; exact List.append_ne_nil_of_right_ne_nil _ (List.cons_ne_nil _ _))
  rw [hcons] at hpath
  cases front with
  | nil =>
    rw [(List.cons.inj hpath).1]
    exact .head _
  | cons head front =>
    rw [(List.cons.inj hpath).1]
    exact .head _

end BlockTree

end Amberchain.BestChain
