import Amberchain.Miner.SignatureSpec
import Mathlib.Data.List.GetD

/-!
# The loops over a Merkle tree

`BuildMerkleTree` writes all levels into one vector and notices when the last two nodes of
a level are the same; `GetMerkleBranch` and `CheckMerkleBranch` walk from a transaction up
to the root.
-/

namespace Amberchain.Miner

/-- `vMerkleTree`, the start of the current level in it, and `mutated`. -/
structure TreeScan (H : Type) where
  vMerkleTree : List H
  j : ℕ
  mutated : Bool

/-- `nIndex^1` -/
def otherIndex (nIndex : ℤ) : ℤ :=
  if nIndex % 2 = 0 then nIndex + 1 else nIndex - 1

def elementAt? {α : Type} (vector : List α) (index : ℤ) : Option α :=
  if index < 0 then none else vector[index.toNat]?

namespace SignEnv

variable {H K : Type} [DecidableEq H] (env : SignEnv H K)

/-- The body of the inner loop, at an even index. -/
def pairNodes (nSize : ℕ) (scan : TreeScan H) (i : ℕ) : TreeScan H :=
  let i2 := min (i + 1) (nSize - 1)
  let left := scan.vMerkleTree.getD (scan.j + i) env.zero
  let right := scan.vMerkleTree.getD (scan.j + i2) env.zero
  { scan with
    vMerkleTree := scan.vMerkleTree ++ [env.nodeHash left right]
    mutated := scan.mutated || (i2 = i + 1 ∧ i2 + 1 = nSize ∧ left = right) }

/-- The inner loop. -/
def pairLevel (nSize : ℕ) (scan : TreeScan H) : TreeScan H :=
  (List.range ((nSize + 1) / 2)).foldl (fun scan half => env.pairNodes nSize scan (2 * half)) scan

/-- The outer loop. -/
def pairLevels (nSize : ℕ) (scan : TreeScan H) : TreeScan H :=
  if nSize ≤ 1 then scan
  else pairLevels ((nSize + 1) / 2)
    { env.pairLevel nSize scan with j := scan.j + nSize }
termination_by nSize
decreasing_by omega

/-- The loops of `BuildMerkleTree`: the tree and `*fMutated`. -/
def buildMerkleTreeScan (block : Block H) : TreeScan H :=
  env.pairLevels block.vtx.length ⟨env.leaves block.nMerkleTreeType block.vtx, 0, false⟩

def fMutated (block : Block H) : Bool :=
  (env.buildMerkleTreeScan block).mutated

/-- The loop of `GetMerkleBranch`, from the level that starts at `j`. -/
def branchFrom (vMerkleTree : List H) (nSize j : ℕ) (nIndex : ℤ) : Option (List H) :=
  if nSize ≤ 1 then some []
  else do
    let other ← elementAt? vMerkleTree (j + min (otherIndex nIndex) (nSize - 1))
    let rest ← branchFrom vMerkleTree ((nSize + 1) / 2) (j + nSize) (nIndex / 2)
    some (other :: rest)
termination_by nSize
decreasing_by omega

/-- `GetMerkleBranch`; a read outside of the tree has no result. -/
def getMerkleBranch (block : Block H) (nIndex : ℤ) : Option (List H) × Block H :=
  let block := if block.vMerkleTree = [] then (env.buildMerkleTree block).2 else block
  (branchFrom block.vMerkleTree block.vtx.length 0 nIndex, block)

/-- The loop of `CheckMerkleBranch`. -/
def climbBranch : H → List H → ℤ → H
  | hash, [], _ => hash
  | hash, other :: rest, nIndex =>
    if nIndex % 2 = 1 then climbBranch (env.nodeHash other hash) rest (nIndex / 2)
    else climbBranch (env.nodeHash hash other) rest (nIndex / 2)

def checkMerkleBranch (hash : H) (vMerkleBranch : List H) (nIndex : ℤ) : H :=
  if nIndex = -1 then env.zero else env.climbBranch hash vMerkleBranch nIndex

end SignEnv

end Amberchain.Miner

/-!
# What a Merkle root commits to

The loops write the levels of the tree one after the other and find out whether two equal
nodes end one of them.  Where none does, the root tells the list of transactions; and the
branch of a transaction leads from it to the root.
-/

namespace Amberchain.Miner

namespace SignEnv

variable {H K : Type} [DecidableEq H] {env : SignEnv H K}

/-- The rounds of the inner loop read one level and write behind it. -/
theorem foldl_pairNodes (front level : List H) (halves : List ℕ)
    (hhalves : ∀ half ∈ halves, 2 * half < level.length) (written : List H) (mutated : Bool) :
    halves.foldl (fun scan half => env.pairNodes level.length scan (2 * half))
        ⟨front ++ level ++ written, front.length, mutated⟩ =
      ⟨front ++ level ++ (written ++ halves.map fun half =>
          env.nodeHash (level.getD (2 * half) env.zero)
            (level.getD (min (2 * half + 1) (level.length - 1)) env.zero)), front.length,
        mutated || halves.any fun half => min (2 * half + 1) (level.length - 1) = 2 * half + 1 ∧
            min (2 * half + 1) (level.length - 1) + 1 = level.length ∧
            level.getD (2 * half) env.zero =
              level.getD (min (2 * half + 1) (level.length - 1)) env.zero⟩ := by
  induction halves generalizing written mutated with
  | nil => simp
  | cons half halves ih =>
    obtain ⟨hhalf, hrest⟩ := List.forall_mem_cons.mp hhalves
    have hread : ∀ i, i < level.length →
        (front ++ level ++ written).getD (front.length + i) env.zero = level.getD i env.zero := by
      intro i hi
      rw [List.append_assoc, List.getD_append_right _ _ _ _ (Nat.le_add_right _ _),
        Nat.add_sub_cancel_left, List.getD_append _ _ _ _ hi]
    have hround : env.pairNodes level.length ⟨front ++ level ++ written, front.length, mutated⟩
        (2 * half) = ⟨front ++ level ++ (written ++ [env.nodeHash (level.getD (2 * half) env.zero)
            (level.getD (min (2 * half + 1) (level.length - 1)) env.zero)]), front.length,
          mutated || (min (2 * half + 1) (level.length - 1) = 2 * half + 1 ∧
            min (2 * half + 1) (level.length - 1) + 1 = level.length ∧
            level.getD (2 * half) env.zero =
              level.getD (min (2 * half + 1) (level.length - 1)) env.zero)⟩ := by
      unfold pairNodes
      dsimp only
      rw [hread _ hhalf, hread _ (by omega), List.append_assoc (front ++ level)]
    rw [List.foldl_cons, hround, ih hrest, List.append_assoc written, Bool.or_assoc]
    rfl

/-- The inner loop writes the next level. -/
theorem pairLevel_eq (front level : List H) (mutated : Bool) :
    env.pairLevel level.length ⟨front ++ level, front.length, mutated⟩ =
      ⟨front ++ level ++ MerkleTree.pairUp env.nodeHash level, front.length,
        mutated || MerkleTree.endsTwice level⟩ := by
  have hround := @foldl_pairNodes H K _ env front level (List.range ((level.length + 1) / 2))
    (fun half hmem => by
      have := List.mem_range.mp hmem
      omega) [] mutated
  rw [List.append_nil, ← MerkleTree.pairUp_eq_map, ← MerkleTree.endsTwice_eq_any] at hround
  exact hround

theorem pairLevels_spec (front level : List H) (mutated : Bool) :
    (env.pairLevels level.length ⟨front ++ level, front.length, mutated⟩).vMerkleTree =
        front ++ MerkleTree.tree env.nodeHash level ∧
      (env.pairLevels level.length ⟨front ++ level, front.length, mutated⟩).mutated =
        (mutated || MerkleTree.mutated env.nodeHash level) := by
  induction level using MerkleTree.tree.induct env.nodeHash generalizing front mutated with
  | case1 level hle =>
    unfold pairLevels MerkleTree.tree MerkleTree.mutated
    rw [if_pos hle, if_pos hle, if_pos hle, Bool.or_false]
    exact ⟨rfl, rfl⟩
  | case2 level hle ih =>
    unfold pairLevels MerkleTree.tree MerkleTree.mutated
    rw [if_neg hle, if_neg hle, if_neg hle, pairLevel_eq,
      ← MerkleTree.length_pairUp env.nodeHash level, ← List.append_assoc, ← Bool.or_assoc,
      ← List.length_append]
    exact ih (front ++ level) (mutated || MerkleTree.endsTwice level)

theorem buildMerkleTreeScan_spec (block : Block H) :
    (env.buildMerkleTreeScan block).vMerkleTree = (env.buildMerkleTree block).2.vMerkleTree ∧
      env.fMutated block =
        MerkleTree.mutated env.nodeHash (env.leaves block.nMerkleTreeType block.vtx) := by
  have hspec := @pairLevels_spec H K _ env [] (env.leaves block.nMerkleTreeType block.vtx) false
  unfold leaves at hspec ⊢
  rw [List.length_map] at hspec
  exact ⟨hspec.1, hspec.2.trans (Bool.false_or _)⟩

theorem elementAt?_natCast {α : Type} (vector : List α) (index : ℕ) :
    elementAt? vector (index : ℤ) = vector[index]? := by
  unfold elementAt?
  rw [if_neg (Int.not_lt.mpr (Int.natCast_nonneg index)), Int.toNat_natCast]

theorem elementAt?_append {α : Type} {front vector : List α} (back : List α) {index : ℤ}
    {element : α} (hread : elementAt? vector index = some element) :
    elementAt? (front ++ (vector ++ back)) (front.length + index) = some element := by
  unfold elementAt? at hread ⊢
  split at hread
  next hneg => cases hread
  next hpos =>
    rw [if_neg (by omega), show (front.length + index).toNat = front.length + index.toNat by omega,
      List.getElem?_append_right (Nat.le_add_right _ _), Nat.add_sub_cancel_left,
      List.getElem?_append_left (List.getElem?_eq_some_iff.mp hread).1, hread]

omit [DecidableEq H] in
/-- The node beside one, and the one above both. -/
theorem pairUp_getElem? (level : List H) {i : ℕ} {hash : H} (hhash : level[i]? = some hash) :
    ∃ other, elementAt? level (min (otherIndex i) (level.length - 1)) = some other ∧
      (MerkleTree.pairUp env.nodeHash level)[i / 2]? =
        some (if (i : ℤ) % 2 = 1 then env.nodeHash other hash else env.nodeHash hash other) := by
  obtain ⟨hlt, hget⟩ := List.getElem?_eq_some_iff.mp hhash
  have hread : ∀ j, j < level.length → level[j]? = some (level.getD j env.zero) := by
    intro j hj
    rw [List.getD_eq_getElem _ _ hj, List.getElem?_eq_getElem hj]
  have hself : level.getD i env.zero = hash := by
    rw [List.getD_eq_getElem _ _ hlt, hget]
  rw [MerkleTree.pairUp_eq_map env.nodeHash level env.zero, List.getElem?_map,
    List.getElem?_range (by omega)]
  unfold otherIndex
  rcases Nat.mod_two_eq_zero_or_one i with heven | hodd
  · rw [if_pos (by omega),
      show min ((i : ℤ) + 1) (level.length - 1) = ((min (i + 1) (level.length - 1) : ℕ) : ℤ) by omega,
      elementAt?_natCast, hread _ (by omega), Option.map_some, show 2 * (i / 2) = i by omega, hself]
    refine ⟨_, rfl, ?_⟩
    rw [if_neg (by omega)]
  rw [if_neg (by omega),
    show min ((i : ℤ) - 1) (level.length - 1) = ((2 * (i / 2) : ℕ) : ℤ) by omega,
    elementAt?_natCast, hread _ (by omega), Option.map_some,
    show min (2 * (i / 2) + 1) (level.length - 1) = i by omega, hself]
  refine ⟨_, rfl, ?_⟩
  rw [if_pos (by omega)]

omit [DecidableEq H] in
/-- The branch of a node leads to the root of its level. -/
theorem climb_branchFrom (front level : List H) {i : ℕ} {hash : H} (hhash : level[i]? = some hash) :
    ∃ branch, branchFrom (front ++ MerkleTree.tree env.nodeHash level) level.length front.length i
        = some branch ∧
      some (env.climbBranch hash branch i) = MerkleTree.root? env.nodeHash level := by
  induction level using MerkleTree.tree.induct env.nodeHash generalizing front i hash with
  | case1 level hle =>
    have hlt := (List.getElem?_eq_some_iff.mp hhash).1
    have hlast : level.getLast? = some hash := by
      rw [List.getLast?_eq_getElem?, ← hhash]
      congr 1
      omega
    refine ⟨[], ?_, ?_⟩
    · unfold branchFrom
      rw [if_pos hle]
    · rw [MerkleTree.root?_of_le hle, hlast, climbBranch]
  | case2 level hle ih =>
    obtain ⟨other, hother, hparent⟩ := @pairUp_getElem? H K env level i hash hhash
    obtain ⟨rest, hrest, hclimb⟩ := ih (front ++ level) hparent
    have hread : elementAt? (front ++ MerkleTree.tree env.nodeHash level)
        (front.length + min (otherIndex i) (level.length - 1)) = some other := by
      unfold MerkleTree.tree
      rw [if_neg hle]
      exact elementAt?_append _ hother
    refine ⟨other :: rest, ?_, ?_⟩
    · unfold branchFrom
      rw [if_neg hle, hread]
      have htree : front ++ MerkleTree.tree env.nodeHash level =
          front ++ level ++ MerkleTree.tree env.nodeHash (MerkleTree.pairUp env.nodeHash level) := by
        conv_lhs => unfold MerkleTree.tree
        rw [if_neg hle, List.append_assoc]
      rw [htree, ← MerkleTree.length_pairUp env.nodeHash level, ← List.length_append]
      have hhalf : (i : ℤ) / 2 = ((i / 2 : ℕ) : ℤ) := by omega
      rw [hhalf, hrest]
      rfl
    rw [← MerkleTree.root?_pairUp (Nat.not_le.mp hle), ← hclimb, climbBranch]
    split <;> rfl

def innerNodes (env : SignEnv H K) (block : Block H) : List H :=
  (env.buildMerkleTreeScan block).vMerkleTree.drop block.vtx.length

theorem innerNodes_eq (block : Block H) : env.innerNodes block =
      MerkleTree.inner env.nodeHash (env.leaves block.nMerkleTreeType block.vtx) := by
  unfold innerNodes MerkleTree.inner
  rw [(buildMerkleTreeScan_spec block).1]
  unfold buildMerkleTree leaves
  rw [List.length_map]

theorem leaves_full (vtx : List (Tx H)) : env.leaves MERKLETREE_FULL vtx = vtx.map env.txHash := by
  have hfull : ∀ tx, env.treeTx MERKLETREE_FULL tx = tx := by
    intro tx
    have hne : MERKLETREE_FULL ≠ MERKLETREE_NO_COINBASE_OP_RETURN := by decide
    unfold treeTx
    rw [if_neg fun hboth => hne hboth.1]
  unfold leaves
  simp only [hfull]

theorem root?_buildMerkleTree {block : Block H} (htype : block.nMerkleTreeType = MERKLETREE_FULL)
    (hne : block.vtx ≠ []) : MerkleTree.root? env.nodeHash (block.vtx.map env.txHash) =
      some (env.buildMerkleTree block).1 := by
  have hleaves : block.vtx.map env.txHash ≠ [] := mt List.map_eq_nil_iff.mp hne
  obtain ⟨root, _, hroot⟩ := @MerkleTree.iterate_depth H env.nodeHash _ hleaves
  unfold buildMerkleTree
  rw [htype, leaves_full]
  dsimp only
  unfold MerkleTree.root? at hroot ⊢
  rw [hroot, Option.getD_some]

/-- Different lists of transactions with one root do not go unnoticed, and the branch of every
transaction leads to the root. -/
theorem merkleTree_commits : (Function.Injective2 env.nodeHash → ∀ block other : Block H,
      block.nMerkleTreeType = MERKLETREE_FULL → other.nMerkleTreeType = MERKLETREE_FULL →
      block.vtx ≠ [] → other.vtx ≠ [] → (∀ tx ∈ block.vtx ++ other.vtx,
        env.txHash tx ∉ env.innerNodes block ++ env.innerNodes other) →
      block.vtx.map env.txHash ≠ other.vtx.map env.txHash →
      (env.buildMerkleTree block).1 = (env.buildMerkleTree other).1 →
      env.fMutated block = true ∨ env.fMutated other = true) ∧
    ∀ (block : Block H) (i : ℕ) (tx : Tx H), block.nMerkleTreeType = MERKLETREE_FULL →
      (block.vMerkleTree = [] ∨ block.vMerkleTree = (env.buildMerkleTree block).2.vMerkleTree) →
      block.vtx[i]? = some tx → ∃ branch, (env.getMerkleBranch block i).1 = some branch ∧
        env.checkMerkleBranch (env.txHash tx) branch i = (env.buildMerkleTree block).1 := by
  constructor
  · intro hnode block other htype htype' hne hne' hinner hdiff hroot
    by_contra hnone
    obtain ⟨hfirst, hsecond⟩ := not_or.mp hnone
    rw [(buildMerkleTreeScan_spec _).2, htype, Bool.not_eq_true] at hfirst
    rw [(buildMerkleTreeScan_spec _).2, htype', Bool.not_eq_true] at hsecond
    rw [innerNodes_eq, innerNodes_eq, htype, htype'] at hinner
    refine hdiff (MerkleTree.eq_of_root_of_not_mutated hnode (mt List.map_eq_nil_iff.mp hne)
      (mt List.map_eq_nil_iff.mp hne') ?_ ?_ hfirst hsecond ?_)
    · intro hash hmem
      obtain ⟨tx, htx, rfl⟩ := List.mem_map.mp hmem
      exact fun hin => hinner tx (List.mem_append_left _ htx) (List.mem_append_right _ hin)
    · intro hash hmem
      obtain ⟨tx, htx, rfl⟩ := List.mem_map.mp hmem
      exact fun hin => hinner tx (List.mem_append_right _ htx) (List.mem_append_left _ hin)
    · rw [root?_buildMerkleTree htype hne, root?_buildMerkleTree htype' hne', hroot]
  intro block i tx htype hcached htx
  have hne : block.vtx ≠ [] := by
    intro hnil
    rw [hnil] at htx
    cases htx
  have hhash : (block.vtx.map env.txHash)[i]? = some (env.txHash tx) := by
    rw [List.getElem?_map, htx, Option.map_some]
  obtain ⟨branch, hbranch, hclimb⟩ :=
    @climb_branchFrom H K env [] (block.vtx.map env.txHash) i (env.txHash tx) hhash
  have htree : (env.buildMerkleTree block).2.vMerkleTree =
      MerkleTree.tree env.nodeHash (block.vtx.map env.txHash) := by
    unfold buildMerkleTree
    rw [htype, leaves_full]
  refine ⟨branch, ?_, ?_⟩
  · rw [List.length_map] at hbranch
    unfold getMerkleBranch
    dsimp only
    split
    next hempty =>
      rw [htree]
      exact hbranch
    next hfull =>
      rw [hcached.resolve_left hfull, htree]
      exact hbranch
  rw [root?_buildMerkleTree htype hne] at hclimb
  exact Option.some.inj hclimb

end SignEnv

/-- A block whose last transaction is repeated has the root of the one without, and the tree
notices; the third transaction has a branch. -/
theorem merkleTree_commits_free :
    (freeEnv.fMutated (freeBlock [] [freeCoinBase [], freeCoinBase []]) = true ∨
      freeEnv.fMutated (freeBlock [] [freeCoinBase [], freeCoinBase [], freeCoinBase []]) = true) ∧
    ∃ branch, (freeEnv.getMerkleBranch (freeBlock [] [freeCoinBase [], freeCoinBase []]) 2).1 =
        some branch ∧ freeEnv.checkMerkleBranch (.tx (freeCoinBase [])) branch 2 =
        (freeEnv.buildMerkleTree (freeBlock [] [freeCoinBase [], freeCoinBase []])).1 := by
  obtain ⟨hcommits, hbranch⟩ := @SignEnv.merkleTree_commits FreeHash Unit _ freeEnv
  refine ⟨hcommits hashInjective_freeEnv.node _ _ rfl rfl (List.cons_ne_nil _ _)
    (List.cons_ne_nil _ _) ?_ ?_ ?_, hbranch _ 2 _ rfl (.inl rfl) rfl⟩
  · intro tx _ hinner
    rw [SignEnv.innerNodes_eq, SignEnv.innerNodes_eq] at hinner
    rcases List.mem_append.mp hinner with hin | hin
    · obtain ⟨left, right, hnode⟩ := MerkleTree.exists_node_of_mem_inner hin
      cases hnode
    obtain ⟨left, right, hnode⟩ := MerkleTree.exists_node_of_mem_inner hin
    cases hnode
  · intro hsame
    exact absurd (congrArg List.length hsame) (by decide)
  refine Option.some.inj ?_
  rw [← SignEnv.root?_buildMerkleTree rfl (List.cons_ne_nil _ _),
    ← SignEnv.root?_buildMerkleTree rfl (List.cons_ne_nil _ _)]
  exact (@MerkleTree.root?_repeat_last _ FreeHash.node
    [FreeHash.tx (freeCoinBase []), FreeHash.tx (freeCoinBase [])] rfl (List.cons_ne_nil _ _)
    _).symm

end Amberchain.Miner
