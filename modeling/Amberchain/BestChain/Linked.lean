import Amberchain.BestChain.CandidateOrder
import Amberchain.BestChain.LastBlockSteps

/-!
# Linked blocks

A block is linked when it and all blocks before it have their transactions.  The candidates and
the active chain are linked, and the blocks that wait for a parent are not.
-/

namespace Amberchain.BestChain

variable {B : Type}

def BlockTree.WorkGrows (tree : BlockTree B) : Prop :=
  ∀ {block parent : B}, tree.pprev block = some parent →
    tree.chainWork parent < tree.chainWork block

namespace Node

open BlockTree

variable {node next : Node B} {block parent tip : B}

structure Waits (node : Node B) (parent block : B) : Prop where
  parent : node.tree.pprev block = some parent
  data : node.tree.haveData block = true
  known : block ∈ node.index
  counted : node.txCount block ≠ 0
  unlinked : node.tree.chainTx block = 0

structure Linked (node : Node B) : Prop where
  grows : node.tree.WorkGrows
  closed : ∀ {block parent : B}, node.tree.chainTx block ≠ 0 →
    node.tree.pprev block = some parent → node.tree.chainTx parent ≠ 0
  data : ∀ {block : B}, node.tree.chainTx block ≠ 0 → node.tree.haveData block = true
  valid : ∀ {block : B}, node.tree.haveData block = true →
    BLOCK_VALID_TRANSACTIONS ≤ node.validity block
  known : ∀ {block : B}, node.tree.chainTx block ≠ 0 → block ∈ node.index
  members : ∀ block ∈ node.candidates, node.tree.chainTx block ≠ 0
  tip : ∀ tip ∈ node.tip, node.tree.chainTx tip ≠ 0
  waits : ∀ entry ∈ node.unlinked, Waits node entry.1 entry.2

theorem Linked.ancestor (hnode : node.Linked) (hbelow : Ancestor node.tree parent block)
    (hblock : node.tree.chainTx block ≠ 0) : node.tree.chainTx parent ≠ 0 := by
  induction hbelow with
  | refl => exact hblock
  | step hparent _ ih => exact ih (hnode.closed hblock hparent)

structure SameLinks (node next : Node B) : Prop where
  pprev : next.tree.pprev = node.tree.pprev
  height : next.tree.height = node.tree.height
  chainWork : next.tree.chainWork = node.tree.chainWork
  chainTx : next.tree.chainTx = node.tree.chainTx
  haveData : next.tree.haveData = node.tree.haveData
  index : next.index = node.index
  txCount : next.txCount = node.txCount
  unlinked : next.unlinked = node.unlinked
  valid : ∀ block, node.validity block ≤ next.validity block

/-- Linked blocks stay linked, with other candidates and another tip that are linked. -/
theorem Linked.same (hnode : node.Linked) (hsame : SameLinks node next)
    (hmembers : ∀ block ∈ next.candidates, node.tree.chainTx block ≠ 0)
    (htip : ∀ tip ∈ next.tip, node.tree.chainTx tip ≠ 0) : next.Linked where
  grows := by
    unfold WorkGrows
    rw [hsame.pprev, hsame.chainWork]
    exact hnode.grows
  closed := by
    rw [hsame.chainTx, hsame.pprev]
    exact hnode.closed
  data := by
    rw [hsame.chainTx, hsame.haveData]
    exact hnode.data
  valid {block} := by
    rw [hsame.haveData]
    exact fun hdata => Nat.le_trans (hnode.valid hdata) (hsame.valid block)
  known := by
    rw [hsame.chainTx, hsame.index]
    exact hnode.known
  members := by
    rw [hsame.chainTx]
    exact hmembers
  tip := by
    rw [hsame.chainTx]
    exact htip
  waits := by
    rw [hsame.unlinked]
    intro entry hentry
    obtain ⟨hparent, hdata, hknown, hcounted, hunlinked⟩ := hnode.waits entry hentry
    exact {
      parent := by rw [hsame.pprev]; exact hparent
      data := by rw [hsame.haveData]; exact hdata
      known := by rw [hsame.index]; exact hknown
      counted := by rw [hsame.txCount]; exact hcounted
      unlinked := by rw [hsame.chainTx]; exact hunlinked }

variable [LinearOrder B] {params : NodeParams} {old : Option B} {validation : Validation B}
  {target : B}

structure Belongs (node : Node B) (block : B) : Prop where
  valid : node.selection.failed block = false
  linked : node.tree.chainTx block ≠ 0
  allowed : block ∈ node.banned → node.contains block = true

def NotWorse (params : NodeParams) (node : Node B) (other : Option B) (block : B) : Prop :=
  ∀ top ∈ other, node.less params block top = false

def Complete (params : NodeParams) (old : Option B) (node : Node B) : Prop :=
  ∀ block : B, Belongs node block → NotWorse params node node.tip block →
    NotWorse params node old block → block ∈ node.candidates

structure Fine (params : NodeParams) (old : Option B) (node : Node B) : Prop where
  linked : node.Linked
  complete : Complete params old node

theorem not_less_trans {first second third : B} (hfirst : node.less params first second = false)
    (hsecond : node.less params second third = false) : node.less params first third = false := by
  have hstrict := strict_less params node
  cases hless : node.less params first third with
  | false => rfl
  | true =>
    by_cases hne : second = third
    · rw [hne, hless] at hfirst
      cases hfirst
    rw [hstrict.trans hless (hstrict.total hsecond hne)] at hfirst
    cases hfirst

theorem less_of_chainWork {first second : B}
    (hwork : node.tree.chainWork first < node.tree.chainWork second) :
    node.less params first second = true := by
  unfold less ChainEnv.less env
  rw [if_neg (Nat.not_lt.mpr (Nat.le_of_lt hwork)), if_pos hwork]

theorem not_less_of_chainWork {first second : B}
    (hwork : node.tree.chainWork first < node.tree.chainWork second) :
    node.less params second first = false :=
  (strict_less params node).asymm (less_of_chainWork hwork)

theorem contains_connected {other : B} (hparent : node.tree.pprev block = node.tip) (hne : other ≠ block)
    (hactive : ({ node with tip := some block } : Node B).contains other = true) :
    node.contains other = true := by
  obtain ⟨top, htop, hbelow⟩ := contains_iff.mp hactive
  cases htop
  cases hbelow with
  | refl => exact absurd rfl hne
  | step hstep hbelow =>
    exact contains_iff.mpr ⟨_, hparent.symm.trans hstep, hbelow⟩

/-- Erasing a block leaves all others, in order or not. -/
theorem mem_eraseCandidate {other : B} (hmem : other ∈ node.candidates) (hne : other ≠ block) :
    other ∈ (node.eraseCandidate params block).candidates := by
  change other ∈ OrderedSet.erase (node.less params) block node.candidates
  generalize node.candidates = candidates at hmem
  induction candidates with
  | nil => cases hmem
  | cons head rest ih =>
    unfold OrderedSet.erase
    split
    · cases List.mem_cons.mp hmem with
      | inl heq =>
        rw [heq]
        exact .head _
      | inr hrest => exact .tail _ (ih hrest)
    rename_i hless
    split
    · exact hmem
    rename_i hback
    have hsame := (strict_less params node).eq_of_not_less (Bool.eq_false_iff.mpr hless)
      (Bool.eq_false_iff.mpr hback)
    refine (List.mem_cons.mp hmem).resolve_left fun heq => hne ?_
    rw [heq, hsame]

def MayConnect (node : Node B) (block : B) : Prop :=
  node.tree.chainTx block ≠ 0 ∧ block ∉ node.banned

/-- Connecting a block above the tip and pruning. -/
theorem Fine.connected {validity : B → ℕ} {attempts : List (B × Bool)}
    (hnode : Fine params old node) (hparent : node.tree.pprev block = node.tip)
    (hmay : node.MayConnect block) (hvalidity : ∀ other, node.validity other ≤ validity other)
    {pruned : Node B}
    (hpruned : ({ node with attempts := attempts, validity := validity, tip := some block } :
      Node B).pruneBlockIndexCandidates params = some pruned) :
    Fine params old pruned ∧ pruned.tip = some block ∧ pruned.tree = node.tree ∧
      pruned.banned = node.banned := by
  obtain ⟨-, hnone⟩ | ⟨-, hsome⟩ := @prune_cases B _ params
    { node with attempts := attempts, validity := validity, tip := some block } block rfl
  · rw [hnone] at hpruned
    cases hpruned
  rw [hsome] at hpruned
  cases hpruned
  refine ⟨⟨?_, ?_⟩, rfl, rfl, rfl⟩
  · refine hnode.linked.same ⟨rfl, rfl, rfl, rfl, rfl, rfl, rfl, rfl, hvalidity⟩ ?_ ?_
    · exact fun other hother => hnode.linked.members other
        ((List.dropWhile_sublist _).subset hother)
    intro top htop
    cases htop
    exact hmay.1
  intro other hbelongs hbetter hold
  have hnotLess : node.less params other block = false := hbetter block rfl
  refine mem_dropWhile (hnode.complete other ?_ ?_ hold) hnotLess
  · refine ⟨hbelongs.valid, hbelongs.linked, fun hbanned => ?_⟩
    by_cases hsame : other = block
    · rw [hsame] at hbanned
      exact absurd hbanned hmay.2
    · exact contains_connected hparent hsame (hbelongs.allowed hbanned)
  intro top htop
  have habove : node.less params block top = false :=
    not_less_of_chainWork (hnode.linked.grows (hparent.trans htop))
  exact not_less_trans hnotLess habove

theorem not_failed_of_marked {other : B}
    (hvalid : (node.markFailedValid block).selection.failed other = false) :
    other ≠ block ∧ node.selection.failed other = false := by
  change (Function.update node.selection.failedValid block true other ||
    node.selection.failedChild other) = false at hvalid
  rw [Bool.or_eq_false_iff] at hvalid
  have hne : other ≠ block := by
    intro heq
    rw [heq, Function.update_self] at hvalid
    cases hvalid.1
  rw [Function.update_of_ne hne] at hvalid
  exact ⟨hne, Bool.or_eq_false_iff.mpr hvalid⟩

theorem Fine.marked {node : Node B} (hnode : Fine params old node) (block : B) :
    Fine params old ((node.markFailedValid block).eraseCandidate params block) := by
  constructor
  · refine hnode.linked.same ⟨rfl, rfl, rfl, rfl, rfl, rfl, rfl, rfl, fun _ => Nat.le_refl _⟩
      (fun other hother => ?_) hnode.linked.tip
    exact hnode.linked.members other ((OrderedSet.erase_sublist _ _).subset hother)
  intro other hbelongs hbetter hold
  obtain ⟨hne, hvalid⟩ := not_failed_of_marked hbelongs.valid
  have hmem : other ∈ (node.markFailedValid block).candidates :=
    hnode.complete other ⟨hvalid, hbelongs.linked, hbelongs.allowed⟩ hbetter hold
  exact mem_eraseCandidate hmem hne

theorem Fine.attempted (hnode : Fine params old node) (attempts : List (B × Bool)) :
    Fine params old { node with attempts := attempts } := by
  constructor
  · exact hnode.linked.same ⟨rfl, rfl, rfl, rfl, rfl, rfl, rfl, rfl, fun _ => Nat.le_refl _⟩
      hnode.linked.members hnode.linked.tip
  intro other hbelongs hbetter hold
  exact hnode.complete other ⟨hbelongs.valid, hbelongs.linked, hbelongs.allowed⟩ hbetter hold

theorem Fine.connectPath {oldTip : Option B} {path : List B} :
    ∀ {node : Node B}, Fine params old node → Climbs node.tree node.tip path →
      (∀ block ∈ path, node.MayConnect block) →
      (connectPath params validation oldTip path node).All (Fine params old) := by
  induction path with
  | nil => exact fun hnode _ _ => hnode
  | cons block path ih =>
    intro node hnode hclimbs hmay
    have hblock := hmay block (.head _)
    have hdata := hnode.linked.data hblock.1
    rw [Node.connectPath]
    unfold connectTip
    rw [if_neg (not_not.mpr hclimbs.1)]
    dsimp only
    rw [hdata, if_neg (not_not.mpr rfl)]
    have htried : Fine params old { node with
        attempts := node.attempts ++ [(block, true && !node.selection.failed block)] } :=
      hnode.attempted _
    cases validation.connect block with
    | connected upgradeRequired =>
      dsimp only
      obtain ⟨validity, hraise, hle⟩ := @raiseValidity_eq B _
        { node with attempts := node.attempts ++ [(block, true && !node.selection.failed block)] }
        BLOCK_VALID_SCRIPTS block
      rw [hraise]
      cases hpruned : Node.pruneBlockIndexCandidates params
          { node with
            attempts := node.attempts ++ [(block, true && !node.selection.failed block)]
            validity := validity
            tip := some block } with
      | none => trivial
      | some pruned =>
        obtain ⟨hfine, htip, htree, hbanned⟩ := hnode.connected hclimbs.1 hblock hle hpruned
        dsimp only
        split
        · exact hfine
        refine ih hfine (by rw [htree, htip]; exact hclimbs.2) fun other hother => ?_
        obtain ⟨hlinked, hallowed⟩ := hmay other (.tail _ hother)
        exact ⟨by rw [htree]; exact hlinked, by rw [hbanned]; exact hallowed⟩
    | invalid =>
      dsimp only
      split
      · exact htried.marked block
      · exact htried.marked block
    | corrupted =>
      dsimp only
      split
      · exact htried
      · exact htried
    | failed reason => exact htried

end Node

end Amberchain.BestChain
