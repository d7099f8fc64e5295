import Amberchain.BestChain.BestCandidate
import Amberchain.BestChain.LastBlockSteps

/-!
# Skip list

`BuildSkip` points each new block index at an ancestor, and `GetAncestor` walks back over
these pointers and the parents.  In a tree whose indexes were built after their parents it
finds what following the parents finds, so forks are found exactly.
-/

namespace Amberchain.BestChain.SkipList

open BlockTree

/-- The lowest `1` bit of a number as a `0`. -/
def invertLowestOne (n : ℕ) : ℕ :=
  n &&& (n - 1)

def getSkipHeight (height : ℕ) : ℕ :=
  if height < 2 then 0
  else if height &&& 1 = 1 then invertLowestOne (invertLowestOne (height - 1)) + 1
  else invertLowestOne height

variable {B : Type}

section Model

variable (tree : BlockTree B) (pskip : B → Option B)

/-- The loop of `GetAncestor`; none when it follows a null pointer. -/
def walkFrom (height : ℕ) : ℕ → ℕ → B → Option B
  | rounds, heightWalk, pindexWalk =>
    if heightWalk ≤ height then some pindexWalk
    else
      match rounds with
      | 0 => none
      | rounds + 1 =>
        let heightSkip := getSkipHeight heightWalk
        let heightSkipPrev := getSkipHeight (heightWalk - 1)
        if heightSkip = height ∨
            (height < heightSkip ∧ ¬(heightSkipPrev + 2 < heightSkip ∧ height ≤ heightSkipPrev)) then
          (pskip pindexWalk).bind (walkFrom height rounds heightSkip)
        else (tree.pprev pindexWalk).bind (walkFrom height rounds (heightWalk - 1))

def getAncestor (block : B) (height : ℤ) : Option B :=
  if tree.height block < height ∨ height < 0 then none
  else walkFrom tree pskip height.toNat (tree.height block) (tree.height block) block

def buildSkip [DecidableEq B] (block : B) : B → Option B :=
  match tree.pprev block with
  | none => pskip
  | some parent =>
    Function.update pskip block (getAncestor tree pskip parent (getSkipHeight (tree.height block)))

def lowered (block : B) (height : ℕ) : Option B :=
  if height < tree.height block then getAncestor tree pskip block height else some block

def lastCommonAncestor [DecidableEq B] (pa pb : B) : Option B :=
  (lowered tree pskip pa (tree.height pb)).bind fun first =>
    (lowered tree pskip pb (tree.height pa)).bind fun second =>
      tree.meet (tree.height first) first second

/-- `FindFork` in `chainActive`, whose height is `-1` when it is empty. -/
def findFork [LinearOrder B] (node : Node B) (block : B) : Option B :=
  match node.tip with
  | none => getAncestor node.tree pskip block (-1)
  | some tip =>
    if node.tree.height tip < node.tree.height block then
      (getAncestor node.tree pskip block (node.tree.height tip)).bind
        (node.forkFrom (node.tree.height tip + 1))
    else node.forkFrom (node.tree.height block + 1) block

end Model

/-- The indexes created so far and their skip pointers.  `AddToBlockIndex` creates an index
once, after that of the parent. -/
inductive Created [DecidableEq B] (tree : BlockTree B) : List B → (B → Option B) → Prop where
  | empty : Created tree [] fun _ => none
  | addToBlockIndex {created : List B} {pskip : B → Option B} {block : B}
      (hcreated : Created tree created pskip) (hnew : block ∉ created)
      (hparent : ∀ parent, tree.pprev block = some parent → parent ∈ created) :
      Created tree (block :: created) (buildSkip tree pskip block)

def LastCommon (tree : BlockTree B) (found first second : B) : Prop :=
  Ancestor tree found first ∧ Ancestor tree found second ∧
    ∀ other, Ancestor tree other first → Ancestor tree other second → Ancestor tree other found

theorem invertLowestOne_lt {n : ℕ} (hpos : 0 < n) : invertLowestOne n < n :=
  Nat.lt_of_le_of_lt Nat.and_le_right (Nat.sub_lt hpos Nat.one_pos)

theorem getSkipHeight_lt {height : ℕ} (hpos : 0 < height) : getSkipHeight height < height := by
  unfold getSkipHeight
  split
  · exact hpos
  split
  · have hfirst := invertLowestOne_lt (by omega : 0 < height - 1)
    have hsecond : invertLowestOne (invertLowestOne (height - 1)) ≤ invertLowestOne (height - 1) :=
      Nat.and_le_left
    omega
  exact invertLowestOne_lt hpos

def Skips (tree : BlockTree B) (created : List B) (pskip : B → Option B) : Prop :=
  ∀ block ∈ created, ∀ parent, tree.pprev block = some parent → parent ∈ created ∧
    pskip block = tree.getAncestor block (getSkipHeight (tree.height block))

variable {tree : BlockTree B} {created : List B} {pskip : B → Option B} {block found : B}

theorem Skips.mem_of_ancestor (hskips : Skips tree created pskip)
    (hancestor : Ancestor tree found block) (hmem : block ∈ created) : found ∈ created := by
  induction hancestor with
  | refl => exact hmem
  | step hparent _ ih => exact ih (hskips _ hmem _ hparent).1

theorem ancestor_of_height_le {other : B} (hfirst : Ancestor tree other block)
    (hsecond : Ancestor tree found block) (hheight : tree.height other ≤ tree.height found) :
    Ancestor tree other found := by
  cases hfirst.linear hsecond with
  | inl hbefore => exact hbefore
  | inr hafter =>
    rw [hafter.eq_of_height hheight]
    exact .refl

/-- Both pointers lead to an ancestor that is not below the height. -/
theorem Skips.walkFrom_eq (hskips : Skips tree created pskip) {rounds : ℕ} {block : B}
    (hmem : block ∈ created) (hancestor : Ancestor tree found block)
    (hrounds : tree.height block ≤ rounds) :
    walkFrom tree pskip (tree.height found) rounds (tree.height block) block = some found := by
  induction rounds using Nat.strong_induction_on generalizing block with
  | _ rounds ih =>
  unfold walkFrom
  by_cases hdone : tree.height block ≤ tree.height found
  · rw [if_pos hdone, hancestor.eq_of_height hdone]
  rw [if_neg hdone]
  cases hancestor with
  | refl => exact absurd (Nat.le_refl _) hdone
  | @step _ parent hparent hancestor =>
    obtain ⟨hparentMem, hskip⟩ := hskips block hmem parent hparent
    have hheight := tree.height_pprev hparent
    have hlt := getSkipHeight_lt (by omega : 0 < tree.height block)
    obtain ⟨rounds, rfl⟩ : ∃ left, rounds = left + 1 := ⟨rounds - 1, by omega⟩
    dsimp only
    split
    · next hfollow =>
      obtain ⟨next, hnext, hnextAncestor, hnextHeight⟩ :=
        @getAncestor_spec B tree block (getSkipHeight (tree.height block)) (by omega)
      have hbelow : Ancestor tree found next :=
        ancestor_of_height_le (.step hparent hancestor) hnextAncestor (by omega)
      rw [hskip, hnext, ← hnextHeight]
      exact ih rounds (by omega) (hskips.mem_of_ancestor hnextAncestor hmem) hbelow (by omega)
    rw [hparent, hheight]
    exact ih rounds (by omega) hparentMem hancestor (by omega)

theorem Skips.getAncestor_eq (hskips : Skips tree created pskip) (hmem : block ∈ created)
    (height : ℤ) : getAncestor tree pskip block height =
      if height < 0 then none else tree.getAncestor block height.toNat := by
  unfold getAncestor
  by_cases hheight : tree.height block < height ∨ height < 0
  · rw [if_pos hheight]
    split
    · rfl
    rw [BlockTree.getAncestor, if_pos (by omega)]
  obtain ⟨found, hfound, hancestor, heq⟩ := @getAncestor_spec B tree block height.toNat (by omega)
  rw [if_neg hheight, if_neg (by omega), hfound, ← heq]
  exact hskips.walkFrom_eq hmem hancestor (Nat.le_refl _)

theorem Skips.getAncestor_natCast (hskips : Skips tree created pskip) (hmem : block ∈ created)
    (height : ℕ) : getAncestor tree pskip block height = tree.getAncestor block height := by
  rw [hskips.getAncestor_eq hmem, if_neg (by omega), Int.toNat_natCast]

theorem Created.skips [DecidableEq B] (hcreated : Created tree created pskip) :
    Skips tree created pskip := by
  induction hcreated with
  | empty => exact fun block hmem => absurd hmem List.not_mem_nil
  | @addToBlockIndex created pskip new hcreated hnew hparents ih =>
    intro block hmem parent hparent
    obtain rfl | hmem := List.mem_cons.mp hmem
    · have hheight := tree.height_pprev hparent
      have hlt := getSkipHeight_lt (by omega : 0 < tree.height block)
      refine ⟨List.mem_cons_of_mem _ (hparents parent hparent), ?_⟩
      rw [buildSkip, hparent]
      dsimp only
      rw [Function.update_self, ih.getAncestor_natCast (hparents parent hparent),
        getAncestor_pprev hparent (by omega)]
    obtain ⟨hold, hskip⟩ := ih block hmem parent hparent
    refine ⟨List.mem_cons_of_mem _ hold, Eq.trans ?_ hskip⟩
    unfold buildSkip
    cases tree.pprev new with
    | none => rfl
    | some _ => exact Function.update_of_ne (ne_of_mem_of_not_mem hmem hnew) _ _

/-- What is above two blocks of one height is above where they meet. -/
theorem meet_last [DecidableEq B] {other : B} : ∀ {rounds : ℕ} {first second : B},
    tree.meet rounds first second = some found → tree.height first = tree.height second →
    Ancestor tree other first → Ancestor tree other second → Ancestor tree other found := by
  intro rounds
  induction rounds with
  | zero =>
    intro first second hmeet hheight hfirst hsecond
    unfold meet at hmeet
    split at hmeet
    · cases hmeet
      exact hfirst
    cases hmeet
  | succ rounds ih =>
    intro first second hmeet hheight hfirst hsecond
    unfold meet at hmeet
    split at hmeet
    · cases hmeet
      exact hfirst
    next hne =>
    cases hfirst with
    | refl => exact absurd (hsecond.eq_of_height (Nat.le_of_eq hheight.symm)) hne
    | step hparent hfirst =>
      cases hsecond with
      | refl =>
        exact absurd ((Ancestor.step hparent hfirst).eq_of_height (Nat.le_of_eq hheight)).symm hne
      | step hparent' hsecond =>
        have hheight' := tree.height_pprev hparent
        have hheight'' := tree.height_pprev hparent'
        rw [hparent, hparent'] at hmeet
        exact ih hmeet (by omega) hfirst hsecond

theorem Skips.lowered_spec (hskips : Skips tree created pskip) (hmem : block ∈ created)
    (height : ℕ) : ∃ first, lowered tree pskip block height = some first ∧
      Ancestor tree first block ∧ tree.height first = min (tree.height block) height := by
  unfold lowered
  split
  · next hlower =>
    obtain ⟨first, hfirst, hancestor, hheight⟩ := getAncestor_spec (Nat.le_of_lt hlower)
    exact ⟨first, (hskips.getAncestor_natCast hmem height).trans hfirst, hancestor, by omega⟩
  exact ⟨block, rfl, .refl, by omega⟩

theorem Skips.lastCommonAncestor [DecidableEq B] (hskips : Skips tree created pskip) {pa pb : B}
    (hpa : pa ∈ created) (hpb : pb ∈ created) :
    ∃ found, lastCommonAncestor tree pskip pa pb = some found ∧ LastCommon tree found pa pb := by
  obtain ⟨first, hfirst, hfirstOf, hfirstHeight⟩ := hskips.lowered_spec hpa (tree.height pb)
  obtain ⟨second, hsecond, hsecondOf, hsecondHeight⟩ := hskips.lowered_spec hpb (tree.height pa)
  have hsame : tree.height first = tree.height second := by omega
  obtain ⟨found, hmeet, hfoundFirst, hfoundSecond⟩ := meet_spec (Nat.le_refl _) hsame
  refine ⟨found, ?_, hfoundFirst.trans hfirstOf, hfoundSecond.trans hsecondOf,
    fun other hother hother' => meet_last hmeet hsame ?_ ?_⟩
  · rw [SkipList.lastCommonAncestor, hfirst, hsecond]
    exact hmeet
  · have hle := hother.height_le
    have hle' := hother'.height_le
    exact ancestor_of_height_le hother hfirstOf (by omega)
  have hle := hother.height_le
  have hle' := hother'.height_le
  exact ancestor_of_height_le hother' hsecondOf (by omega)

/-- Above where the path of a block leaves the chain there is nothing of the chain. -/
theorem forkOf_last {active : B → Bool} (hfork : tree.forkOf active block = some found) {other : B}
    (hother : Ancestor tree other block) (hactive : active other = true) :
    Ancestor tree other found := by
  induction hother with
  | refl =>
    rw [forkOf_of_active hactive] at hfork
    cases hfork
    exact .refl
  | @step block parent hparent hother ih =>
    cases hblock : active block with
    | true =>
      rw [forkOf_of_active hblock] at hfork
      cases hfork
      exact .step hparent hother
    | false =>
      rw [forkOf_of_not_active hblock, hparent] at hfork
      exact ih hfork

/-- Ancestors are found as by following the parents, and forks are the last common blocks. -/
theorem Created.ancestors_exact [LinearOrder B] (hcreated : Created tree created pskip) :
    (∀ block ∈ created, ∀ height : ℤ, getAncestor tree pskip block height =
      if height < 0 then none else tree.getAncestor block height.toNat) ∧
    (∀ pa ∈ created, ∀ pb ∈ created, ∃ found,
      lastCommonAncestor tree pskip pa pb = some found ∧ LastCommon tree found pa pb) ∧
    ∀ node : Node B, node.tree = tree → ∀ tip, node.tip = some tip → ∀ block ∈ created,
      ∃ found, findFork pskip node block = some found ∧ LastCommon tree found block tip := by
  have hskips := hcreated.skips
  refine ⟨fun block hmem height => hskips.getAncestor_eq hmem height,
    fun pa hpa pb hpb => hskips.lastCommonAncestor hpa hpb, ?_⟩
  rintro node rfl tip htip block hmem
  obtain ⟨found, hfound⟩ := Node.exists_fork htip block
  obtain ⟨hactive, hancestor⟩ := forkOf_spec hfound
  refine ⟨found, ?_, hancestor, ?_, fun other hother hother' =>
    forkOf_last hfound hother (Node.contains_iff.mpr ⟨tip, htip, hother'⟩)⟩
  · rw [← Node.findFork_eq, Node.findFork, htip] at hfound
    rw [findFork, htip]
    dsimp only
    rw [hskips.getAncestor_natCast hmem]
    exact hfound
  obtain ⟨_, htip', habove⟩ := Node.contains_iff.mp hactive
  cases htip.symm.trans htip'
  exact habove

local instance forkNonzero : NeZero 4 := inferInstance

def forkSkips : Fin 4 → Option (Fin 4) :=
  [0, 1, 2, 3].foldl (fun pskip block => buildSkip forkTree pskip block) fun _ => none

theorem forkSkips_created : Created forkTree [3, 2, 1, 0] forkSkips := by
  refine .addToBlockIndex (.addToBlockIndex (.addToBlockIndex (.addToBlockIndex .empty ?_ ?_)
    ?_ ?_) ?_ ?_) ?_ ?_ <;> decide

theorem ancestors_exact_fork : getAncestor forkTree forkSkips 3 0 = some 0 :=
  (Created.ancestors_exact forkSkips_created).1 3 (by decide) 0

end Amberchain.BestChain.SkipList
