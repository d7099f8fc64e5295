import Amberchain.BestChain.Complete
import Amberchain.Interpreter.SendPermission
import Amberchain.Transaction.CheckPoint
import Amberchain.Validation.ConnectExits

/-!
# Progress behind a refused block

What a node does with a block that `ConnectBlock` refuses.  A filled state sets the block
aside, and the chain goes on without it.  A plain exit is taken for an error of the system:
the block stays what it was, and the step fails.
-/

namespace Amberchain.Validation

open BestChain Interpreter Permission Transaction

variable {B : Type} [LinearOrder B] {params : NodeParams} {node : Node B}
  {validation : BestChain.Validation B} {block : B} {final : World}

/-- What `ConnectTip` makes of the state that a refused block leaves. -/
def refusal (final : World) : ConnectResult :=
  if final.state.isInvalid then
    if final.state.corruptionPossible then .corrupted else .invalid
  else .failed final.state.rejectReason

/-- A node with the refused block behind its tip sets that aside: the step towards the block is
not an error, unless there is no chain yet; the block is marked as failed and leaves the
candidates, unless its data may be damaged; and it is not tried again. -/
structure SetAside (params : NodeParams) (validation : BestChain.Validation B) (node : Node B)
    (block : B) (corruptionPossible : Bool) (next : Node B) : Prop where
  step : ∀ oldTip path, node.connectPath params validation oldTip (block :: path)
    = if node.tip = none then .error "" next else .ok next
  tip : next.tip = node.tip
  failed : corruptionPossible = false → next.selection.failed block = true
  left : corruptionPossible = false → node.Increasing params → block ∉ next.candidates
  never : corruptionPossible = false → ∀ rounds,
    (Node.activateBestChain params rounds next).All fun last =>
      ∃ tries, last.attempts = next.attempts ++ tries ∧ ∀ attempt ∈ tries, attempt.1 ≠ block

def attempted (node : Node B) (block : B) : Node B :=
  { node with
    attempts := node.attempts ++
      [(block, node.tree.haveData block && !node.selection.failed block)] }

theorem connectTip_refused (hparent : node.tree.pprev block = node.tip)
    (hdata : node.tree.haveData block = true)
    (hconnect : validation.connect block = refusal final) :
    node.connectTip params validation block = some (refusal final,
      if final.state.isInvalid && !final.state.corruptionPossible then
        ((attempted node block).markFailedValid block).eraseCandidate params block
      else attempted node block) := by
  unfold Node.connectTip
  rw [if_neg (not_not.mpr hparent)]
  rw [if_neg (not_not.mpr hdata), hconnect, refusal]
  cases final.state.isInvalid with
  | false => rfl
  | true =>
    cases final.state.corruptionPossible with
    | false => rfl
    | true => rfl

theorem setAside_of_invalid (hparent : node.tree.pprev block = node.tip)
    (hdata : node.tree.haveData block = true) (hconnect : validation.connect block = refusal final)
    (hinvalid : final.state.isInvalid = true) :
    ∃ next, SetAside params validation node block final.state.corruptionPossible next := by
  have htried := @connectTip_refused B _ params node validation block final hparent hdata hconnect
  rw [hinvalid] at htried
  cases hcorruption : final.state.corruptionPossible with
  | true =>
    have hresult : refusal final = .corrupted := by
      rw [refusal, hinvalid, hcorruption]
      rfl
    rw [hresult, hcorruption] at htried
    refine ⟨attempted node block, ?_, rfl, nofun, nofun, nofun⟩
    intro oldTip path
    rw [Node.connectPath, htried]
    rfl
  | false =>
    have hresult : refusal final = .invalid := by
      rw [refusal, hinvalid, hcorruption]
      rfl
    rw [hresult, hcorruption] at htried
    have hfailed : (((attempted node block).markFailedValid block).eraseCandidate params
        block).selection.failed block = true := by
      change (Function.update node.selection.failedValid block true block || _) = true
      rw [Function.update_self, Bool.true_or]
    refine ⟨((attempted node block).markFailedValid block).eraseCandidate params block, ?_, rfl,
      fun _ => hfailed, fun _ hincreasing hmem => ?_, fun _ rounds => ?_⟩
    · intro oldTip path
      rw [Node.connectPath, htried]
      rfl
    · exact ((OrderedSet.mem_erase (Node.strict_less params node) hincreasing).mp hmem).1 rfl
    exact Node.activateBestChain_not_tried rounds hfailed

def NeverStops (final : World) : Prop :=
  final.state.isInvalid = true ∧
    ∀ (B : Type) [LinearOrder B] (params : NodeParams) (node : Node B)
      (validation : BestChain.Validation B) (block : B),
      node.tree.pprev block = node.tip → node.tree.haveData block = true →
      validation.connect block = refusal final →
      ∃ next, SetAside params validation node block final.state.corruptionPossible next

/-- A block that `ConnectBlock` refuses stops no node, exactly when neither of the plain exits
is taken. -/
theorem connectBlock_neverStops_iff (env : BlockEnv) (block : Block) (index : BlockIndex)
    (justCheck : Bool) (world final : World) (hvalid : world.state.mode = .valid)
    (hrefused : connectBlock env Disk.sound block index justCheck world = .error .refused final) :
    NeverStops final ↔ ¬TakesPlainExit env block index justCheck world := by
  have hends := connectBlock_fillsUnless env block index justCheck world hvalid
  rw [hrefused] at hends
  constructor
  · rintro ⟨hinvalid, -⟩ hplain
    obtain ⟨-, hmode⟩ | ⟨hnot, -⟩ := hends
    · rw [ValidationState.isInvalid, hmode] at hinvalid
      cases hinvalid
    · exact hnot hplain
  intro hnot
  obtain ⟨hplain, -⟩ | ⟨-, hmode⟩ := hends
  · exact absurd hplain hnot
  have hinvalid : final.state.isInvalid = true := by
    rw [ValidationState.isInvalid, hmode]
    rfl
  exact ⟨hinvalid, fun B _ params node validation child hparent hdata hconnect =>
    setAside_of_invalid hparent hdata hconnect hinvalid⟩

def sampleEnv : BlockEnv where
  check := guardedEnv []
  unspendable := fun _ => false
  isDust := fun _ => false
  requireStandard := false
  time := 1
  checkProofOfWork := fun _ _ => true
  adjustedTime := 1
  targetSpacing := 15
  nodeHash := fun left right => left + right
  txSize := fun _ => 100
  blockSize := fun _ => 200
  maxBlockSize := 8388608
  maxBlockSigOps := 20000
  legacySigOps := fun _ => 0
  p2shSigOps := fun _ _ => 0
  bannedTxs := []
  genesisHash := 1
  genesisMiner := some Store.firstMiner
  unsetMiner := 0
  checkpointHeight := 0
  scriptCheckThreads := false
  txIndex := true
  initialBlockReward := 0
  firstBlockReward := -1
  halvingInterval := 52560000
  acceptPermissions := fun _ chain => .ok chain
  acceptAssets := fun _ _ _ chain => .ok chain

def coinbaseTx (script : Bytes) : SignedTx where
  hash := 9
  vin := [⟨⟨0, 0xffffffff⟩, [1, 1]⟩]
  vout := [⟨0, script⟩]
  version := 1
  sequences := [0xffffffff]
  lockTime := 0
  length_sequences := rfl

def coinbaseBlock (script : Bytes) (signer : Option Hash160) : Block where
  hash := 2
  merkleRoot := 9
  version := 3
  time := 1
  nBits := 0
  vtx := [coinbaseTx script]
  signer := signer

def secondIndex : BlockIndex where
  prev := some (1, 0)
  hash := 2
  time := 1
  minerKnown := true
  undoMissing := true
  scriptsValid := false
  superMajority := false

def minedOnceWorld : World where
  state := {}
  chain := minedOnceChain
  coinsOf := fun _ => none
  bestBlock := 1
  bannedBlocks := []

theorem unsigned_neverStops_iff :
    ∃ final, connectBlock sampleEnv Disk.sound (coinbaseBlock [] none) secondIndex false
        minedOnceWorld = .error .refused final
      ∧ (NeverStops final ↔ ¬TakesPlainExit sampleEnv (coinbaseBlock [] none) secondIndex false
        minedOnceWorld) :=
  ⟨_, rfl, connectBlock_neverStops_iff sampleEnv (coinbaseBlock [] none) secondIndex false
    minedOnceWorld _ rfl rfl⟩

def refusedPlainly {α : Type} : EStateM.Result Refusal World α → Bool
  | .error .refused final => !final.state.isInvalid
  | _ => false

/-- A well-formed block by a permitted miner, whose coinbase pays to a script without a
destination, is refused and leaves a valid state. -/
theorem coinbase_stops :
    ¬ ∀ (env : BlockEnv) (block : Block) (index : BlockIndex) (justCheck : Bool)
      (world final : World), world.state.mode = .valid →
      connectBlock env Disk.sound block index justCheck world = .error .refused final →
      NeverStops final := by
  intro hnever
  have hrun : refusedPlainly (connectBlock sampleEnv Disk.sound
      (coinbaseBlock [OP_1] (some Store.firstMiner)) secondIndex false minedOnceWorld) = true := by
    decide +kernel
  cases hresult : connectBlock sampleEnv Disk.sound
      (coinbaseBlock [OP_1] (some Store.firstMiner)) secondIndex false minedOnceWorld with
  | ok fees final =>
    rw [hresult] at hrun
    cases hrun
  | error refusal final =>
    rw [hresult] at hrun
    cases refusal with
    | thrown => cases hrun
    | refused =>
      obtain ⟨hinvalid, -⟩ := hnever _ _ _ _ _ _ rfl hresult
      rw [refusedPlainly, hinvalid] at hrun
      cases hrun

end Amberchain.Validation
