import Amberchain.BestChain.ActiveChain
import Amberchain.Permission.Governance
import Amberchain.Permission.Thresholds
import Amberchain.Validation.State

/-!
# The lock on changes of governance

`ContextualCheckBlockHeader` refuses a header that forks off below a change of the admins or
miners which is old enough to be locked.  The fork block, which both branches share, is
searched as well, and a fork at the first block is never refused.
-/

namespace Amberchain.Validation

open BestChain Permission Permission.Store

def REJECT_OBSOLETE : ℕ := 0x11
def REJECT_CHECKPOINT : ℕ := 0x43

/-- `CBlockHeader` with its hash. -/
structure BlockHeader where
  hash : Hash256
  nVersion : ℤ
  time : ℤ
  nBits : BitVec 32

structure HeaderRefusal where
  level : ℕ
  code : ℕ
  reason : String
deriving DecidableEq

/-- What the check of a header reads beside the active chain and the permissions: parameters,
the work and the times that its parent asks for, the checkpoints and the versions before it. -/
structure HeaderEnv (B : Type) where
  params : ChainParams
  genesisHash : Hash256
  skipProofOfWorkCheck : Bool
  interval : ℤ
  lockAdminMineRounds : BitVec 32
  hLockedBlock : Hash256
  nextWorkRequired : B → BlockHeader → BitVec 32
  medianTimePast : B → ℤ
  checkpoints : ℕ → Option Hash256
  lastCheckpoint : Option B
  isSuperMajority : ℤ → B → Bool

namespace HeaderEnv

variable {B : Type} [LinearOrder B] (env : HeaderEnv B) (node : Node B) (store : Store)

def checkWorkAndTime (header : BlockHeader) (parent : B) : Option HeaderRefusal :=
  if !env.skipProofOfWorkCheck ∧ header.nBits ≠ env.nextWorkRequired parent header then
    some ⟨100, REJECT_INVALID, "bad-diffbits"⟩
  else if header.time ≤ env.medianTimePast parent then
    some ⟨0, REJECT_INVALID, "time-too-old"⟩
  else if (env.checkpoints (node.tree.height parent + 1)).any (· ≠ header.hash) then
    some ⟨100, REJECT_CHECKPOINT, "checkpoint mismatch"⟩
  else none

def waitingForLocked : Bool :=
  match node.locked with
  | some locked => !node.contains locked
  | none => env.hLockedBlock ≠ 0

/-- `nMaxHeight`, in 32-bit arithmetic. -/
def lockHeight : ℤ :=
  let minerCount := store.minerCount - store.getActiveMinerCount env.params + 1
  (BitVec.ofNat 32 (node.chainLength - 1) - env.lockAdminMineRounds * minerCount).toInt

def reorgTooDeep : HeaderRefusal :=
  ⟨0, REJECT_INVALID, "reorg-too-deep"⟩

def checkFork (parent : B) : Option HeaderRefusal :=
  if env.interval ≤ 0 ∧ env.waitingForLocked node = false ∧ node.tip ≠ some parent
      ∧ env.params.anyoneCanAdmin = false ∧ env.params.anyoneCanMine = false then
    match node.findFork parent with
    | none => none
    | some fork =>
      if (node.tree.height fork : ℤ) ≤ env.lockHeight node store ∧ 0 < node.tree.height fork
          ∧ store.findGovernanceModelChange (node.tree.height fork)
            (env.lockHeight node store).toNat ≠ 0 then
        some reorgTooDeep
      else none
  else none

def checkBranchForInvalidBlocks (parent : B) : Bool :=
  (node.tree.path node.contains parent).all fun block =>
    !node.selection.failedValid block && !node.selection.failedChild block

def checkBranchAndVersion (header : BlockHeader) (parent : B) (checked : Option B) :
    Option HeaderRefusal :=
  if checked ≠ some parent ∧ checkBranchForInvalidBlocks node parent = false then
    some ⟨0, REJECT_INVALID, "reorg-invalid branch"⟩
  else if env.lastCheckpoint.any fun block =>
      node.tree.height parent + 1 < node.tree.height block then
    some ⟨100, 0, ""⟩
  else if header.nVersion < 2 ∧ env.isSuperMajority 2 parent then
    some ⟨0, REJECT_OBSOLETE, "bad-version"⟩
  else if header.nVersion < 3 ∧ env.isSuperMajority 3 parent then
    some ⟨0, REJECT_OBSOLETE, "bad-version"⟩
  else none

def contextualCheckBlockHeader (header : BlockHeader) (parent : B) (checked : Option B) :
    Option HeaderRefusal :=
  if header.hash = env.genesisHash then none
  else
    (env.checkWorkAndTime node header parent).or
      ((if env.params.isProtocolMultichain then env.checkFork node store parent else none).or
        (env.checkBranchAndVersion node header parent checked))

/-- The header gets as far as the search for a change of governance. -/
def Reaches (header : BlockHeader) (parent : B) : Prop :=
  header.hash ≠ env.genesisHash ∧ env.checkWorkAndTime node header parent = none
    ∧ env.params.isProtocolMultichain = true

variable {env node store} {header : BlockHeader} {parent fork : B} {checked : Option B}
  {chain : List CommittedBlock} {longest : ℕ}

omit [LinearOrder B] in
theorem checkWorkAndTime_ne : env.checkWorkAndTime node header parent ≠ some reorgTooDeep := by
  unfold checkWorkAndTime
  split
  · decide
  split
  · decide
  split <;> simp [reorgTooDeep]

theorem checkBranchAndVersion_ne :
    env.checkBranchAndVersion node header parent checked ≠ some reorgTooDeep := by
  unfold checkBranchAndVersion
  split
  · decide
  split
  · decide
  split
  · decide
  split <;> simp [reorgTooDeep]

theorem contextualCheck_eq_tooDeep_iff :
    env.contextualCheckBlockHeader node store header parent checked = some reorgTooDeep
      ↔ env.Reaches node header parent ∧ env.checkFork node store parent = some reorgTooDeep := by
  unfold contextualCheckBlockHeader Reaches
  by_cases hgenesis : header.hash = env.genesisHash
  · simp [hgenesis]
  cases hwork : env.checkWorkAndTime node header parent with
  | some refusal =>
    have hne : refusal ≠ reorgTooDeep := fun heq => checkWorkAndTime_ne (heq ▸ hwork)
    simp [hne]
  | none =>
    cases hmultichain : env.params.isProtocolMultichain with
    | false => simp [checkBranchAndVersion_ne]
    | true =>
      cases hcheck : env.checkFork node store parent with
      | some refusal => simp [hgenesis]
      | none => simp [checkBranchAndVersion_ne]

/-- The block at the height has changed who may admin or mine. -/
def Flagged (chain : List CommittedBlock) (height : ℕ) : Prop :=
  (chain[height]?.any CommittedBlock.governance) = true

structure CommitsChain (hashOf : B → Hash256) (node : Node B) (chain : List CommittedBlock) :
    Prop where
  length : chain.length = node.chainLength
  hash : ∀ block, node.contains block = true →
    chain[node.tree.height block]?.map CommittedBlock.hash = some (hashOf block)

def ReversesGovernance (env : HeaderEnv B) (node : Node B) (store : Store)
    (chain : List CommittedBlock) (fork : B) : Prop :=
  ∃ height, node.tree.height fork < height ∧ (height : ℤ) ≤ env.lockHeight node store
    ∧ Flagged chain height

theorem findGovernanceModelChange_ne_zero_iff (hinv : ChainInv store chain longest)
    (hblock : 0 ≤ store.block) {start : ℕ} {lock : ℤ} (hstart : 0 < start)
    (hle : (start : ℤ) ≤ lock) (hlt : lock < 2 ^ 31) :
    store.findGovernanceModelChange start lock.toNat ≠ 0
      ↔ ∃ height, start ≤ height ∧ (height : ℤ) ≤ lock ∧ Flagged chain height := by
  rw [hinv.findGovernanceModelChange_eq hblock start (show lock.toNat < 2 ^ 31 by omega), ne_eq,
    Nat.findGreatest_eq_zero_iff, max_eq_left (show 1 ≤ start from hstart)]
  constructor
  · intro hfound
    by_contra hnone
    refine hfound fun height _ hheight hflagged => hnone ⟨height, hflagged.1, ?_, hflagged.2⟩
    omega
  rintro ⟨height, hfrom, hheight, hflagged⟩ hnone
  obtain ⟨block, hget, -⟩ := (Option.any_eq_true _ _).mp hflagged
  have hlength := (List.getElem?_eq_some_iff.mp hget).1
  exact hnone (show 0 < height by omega) (le_min (by omega) (by omega)) ⟨hfrom, hflagged⟩

/-- `ContextualCheckBlockHeader` refuses exactly the forks that reverse a locked change of
governance, if and only if such a fork is not at the first block and passes the checks before,
and no other one leaves the chain at a block that is itself flagged. -/
theorem contextualCheckBlockHeader_reverses_iff {hashOf : B → Hash256}
    (hrun : ChainRun env.params store chain longest) (hcommits : CommitsChain hashOf node chain)
    (hinterval : env.interval ≤ 0) (hlocked : env.waitingForLocked node = false)
    (hadmin : env.params.anyoneCanAdmin = false) (hmine : env.params.anyoneCanMine = false)
    (hparent : node.tip ≠ some parent) (hfork : node.findFork parent = some fork) :
    (env.contextualCheckBlockHeader node store header parent checked = some reorgTooDeep
        ↔ ReversesGovernance env node store chain fork)
      ↔ (ReversesGovernance env node store chain fork →
          env.Reaches node header parent ∧ 0 < node.tree.height fork)
        ∧ (env.Reaches node header parent → 0 < node.tree.height fork →
          (node.tree.height fork : ℤ) ≤ env.lockHeight node store →
          Flagged chain (node.tree.height fork) →
          ReversesGovernance env node store chain fork) := by
  have hlt : env.lockHeight node store < 2 ^ 31 := BitVec.toInt_lt
  have hblock : 0 ≤ store.block := by
    have hlength := hrun.inv.length
    rw [hcommits.length] at hlength
    cases htip : node.tip with
    | none =>
      rw [Node.findFork, htip] at hfork
      cases hfork
    | some tip =>
      rw [Node.chainLength, htip] at hlength
      push_cast at hlength
      omega
  have hrefused : env.checkFork node store parent = some reorgTooDeep
      ↔ 0 < node.tree.height fork ∧ ∃ height, node.tree.height fork ≤ height
        ∧ (height : ℤ) ≤ env.lockHeight node store ∧ Flagged chain height := by
    rw [checkFork, if_pos ⟨hinterval, hlocked, hparent, hadmin, hmine⟩, hfork]
    constructor
    · intro hcheck
      dsimp only at hcheck
      split at hcheck
      next hfound =>
        obtain ⟨hle, hpos, hfound⟩ := hfound
        exact ⟨hpos, (findGovernanceModelChange_ne_zero_iff hrun.inv hblock hpos hle hlt).mp hfound⟩
      · cases hcheck
    rintro ⟨hpos, height, hfrom, hheight, hflagged⟩
    have hle : (node.tree.height fork : ℤ) ≤ env.lockHeight node store := by omega
    exact if_pos ⟨hle, hpos, (findGovernanceModelChange_ne_zero_iff hrun.inv hblock hpos hle
      hlt).mpr ⟨height, hfrom, hheight, hflagged⟩⟩
  -- the search also finds a flag of the fork block, which is no change that is reversed
  have hsplit : (∃ height, node.tree.height fork ≤ height
        ∧ (height : ℤ) ≤ env.lockHeight node store ∧ Flagged chain height)
      ↔ ReversesGovernance env node store chain fork
        ∨ (node.tree.height fork : ℤ) ≤ env.lockHeight node store
          ∧ Flagged chain (node.tree.height fork) := by
    constructor
    · rintro ⟨height, hfrom, hheight, hflagged⟩
      obtain heq | hlt := hfrom.eq_or_lt
      · exact .inr (heq ▸ ⟨hheight, hflagged⟩)
      · exact .inl ⟨height, hlt, hheight, hflagged⟩
    rintro (⟨height, hlt, hheight, hflagged⟩ | ⟨hheight, hflagged⟩)
    · exact ⟨height, hlt.le, hheight, hflagged⟩
    · exact ⟨_, le_rfl, hheight, hflagged⟩
  rw [contextualCheck_eq_tooDeep_iff, hrefused, hsplit]
  constructor
  · intro hiff
    refine ⟨fun hreverses => ?_, fun hreaches hpos hheight hflagged => ?_⟩
    · obtain ⟨hreaches, hpos, -⟩ := hiff.mpr hreverses
      exact ⟨hreaches, hpos⟩
    · exact hiff.mp ⟨hreaches, hpos, .inr ⟨hheight, hflagged⟩⟩
  rintro ⟨hreaches, hother⟩
  constructor
  · rintro ⟨hreached, hpos, hreverses | ⟨hheight, hflagged⟩⟩
    · exact hreverses
    · exact hother hreached hpos hheight hflagged
  intro hreverses
  obtain ⟨hreached, hpos⟩ := hreaches hreverses
  exact ⟨hreached, hpos, .inl hreverses⟩

local instance rowNonzero : NeZero 3 := inferInstance

def threeInARow : BlockTree (Fin 3) where
  pprev block := if block = 0 then none else some (block - 1)
  height block := block
  chainWork block := block + 1
  canMine _ := 0
  heightMinedByMe _ := 0
  sequenceId _ := 0
  haveData _ := true
  chainTx block := block + 1
  height_pprev {child parent} hparent := by
    revert child parent
    decide
  height_root {root} hroot := by
    revert root
    decide
  root_unique {first second} hfirst hsecond := by
    revert first second
    decide

def threeConnected : Node (Fin 3) where
  tree := threeInARow
  selection := ⟨[], fun _ => false, fun _ => false, fun _ => false, 0⟩
  validity _ := 0
  txCount _ := 1
  index := [0, 1, 2]
  tip := some 2
  locked := none
  banned := []
  unlinked := []
  nextSequenceId := 4
  attempts := []

def oneRoundEnv : HeaderEnv (Fin 3) where
  params := .defaults
  genesisHash := 1
  skipProofOfWorkCheck := true
  interval := 0
  lockAdminMineRounds := 1
  hLockedBlock := 0
  nextWorkRequired _ _ := 0
  medianTimePast _ := 0
  checkpoints _ := none
  lastCheckpoint := none
  isSuperMajority _ _ := false

def thirdMined : Store :=
  (secondGranted.commit .defaults firstMiner 2).commit .defaults firstMiner 3

def thirdBlock : CommittedBlock where
  miner := firstMiner
  hash := 3
  governance := false

theorem thirdMined_run : ChainRun .defaults thirdMined [firstBlock, secondBlock, thirdBlock] 3 := by
  have hbound : (secondGranted.commit .defaults firstMiner 2).block + 1 < 2 ^ 31 := by
    decide +kernel
  have hrun := secondMined_run.apply (.commit firstMiner 3) hbound
  have hchain : (secondGranted.commit .defaults firstMiner 2).chainAfter [firstBlock, secondBlock]
      (.commit firstMiner 3) = [firstBlock, secondBlock, thirdBlock] := by
    rfl
  exact hrun

theorem threeConnected_commits : CommitsChain (fun block => (block.val + 1 : ℕ)) threeConnected
    [firstBlock, secondBlock, thirdBlock] where
  length := rfl
  hash := by decide

def siblingHeader : BlockHeader :=
  ⟨4, 3, 1, 0⟩

theorem siblingHeader_reverses_iff :
    (oneRoundEnv.contextualCheckBlockHeader threeConnected thirdMined siblingHeader 1 none
        = some reorgTooDeep ↔ ReversesGovernance oneRoundEnv threeConnected thirdMined
          [firstBlock, secondBlock, thirdBlock] 1)
      ↔ (ReversesGovernance oneRoundEnv threeConnected thirdMined
          [firstBlock, secondBlock, thirdBlock] 1 →
          oneRoundEnv.Reaches threeConnected siblingHeader 1 ∧ 0 < threeConnected.tree.height 1)
        ∧ (oneRoundEnv.Reaches threeConnected siblingHeader 1 → 0 < threeConnected.tree.height 1 →
          (threeConnected.tree.height 1 : ℤ) ≤ oneRoundEnv.lockHeight threeConnected thirdMined →
          Flagged [firstBlock, secondBlock, thirdBlock] (threeConnected.tree.height 1) →
          ReversesGovernance oneRoundEnv threeConnected thirdMined
            [firstBlock, secondBlock, thirdBlock] 1) :=
  contextualCheckBlockHeader_reverses_iff thirdMined_run threeConnected_commits (by decide)
    (by decide) rfl rfl (by decide) (by decide)

/-- A fork at the block that granted the second miner reverses nothing and is refused. -/
theorem not_tooDeep_iff_reverses :
    ¬ ∀ (env : HeaderEnv (Fin 3)) (node : Node (Fin 3)) (store : Store)
      (chain : List CommittedBlock) (longest : ℕ) (hashOf : Fin 3 → Hash256)
      (header : BlockHeader) (parent fork : Fin 3) (checked : Option (Fin 3)),
      ChainRun env.params store chain longest → CommitsChain hashOf node chain →
      env.interval ≤ 0 → env.waitingForLocked node = false →
      env.params.anyoneCanAdmin = false → env.params.anyoneCanMine = false →
      node.tip ≠ some parent → node.findFork parent = some fork →
      (env.contextualCheckBlockHeader node store header parent checked = some reorgTooDeep
        ↔ ReversesGovernance env node store chain fork) := by
  intro hall
  have hiff := hall oneRoundEnv threeConnected thirdMined [firstBlock, secondBlock, thirdBlock] 3
    (fun block => (block.val + 1 : ℕ)) siblingHeader 1 1 none thirdMined_run threeConnected_commits
    (by decide) (by decide) rfl rfl (by decide) (by decide)
  have hlock : oneRoundEnv.lockHeight threeConnected thirdMined = 1 := by decide +kernel
  obtain ⟨height, habove, hbelow, -⟩ := hiff.mp (by decide +kernel)
  have habove : 1 < height := habove
  omega

end HeaderEnv

end Amberchain.Validation
