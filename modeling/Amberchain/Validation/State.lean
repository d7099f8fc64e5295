import Amberchain.Interpreter.CheckInputs
import Amberchain.Storage.Spending
import Amberchain.Transaction.Accept

/-!
# The state of a validation

`CValidationState`, what a node reads and changes when it checks and connects blocks, and
the ways in which a check ends that does not succeed.
-/

namespace Amberchain.Validation

open Interpreter Storage Transaction

/-- `mode_state` -/
inductive Mode where
  | valid
  | invalid
  | error
deriving DecidableEq

def REJECT_INVALID : ℕ := 0x10
def REJECT_NONSTANDARD : ℕ := 0x40

structure ValidationState where
  mode : Mode := .valid
  nDoS : ℕ := 0
  rejectReason : String := ""
  rejectCode : ℕ := 0
  corruptionPossible : Bool := false
deriving DecidableEq

namespace ValidationState

variable (state : ValidationState)

def doS (level rejectCode : ℕ) (rejectReason : String) (corruption : Bool) : ValidationState :=
  let filled := { state with rejectCode, rejectReason, corruptionPossible := corruption }
  if state.mode = .error then filled
  else { filled with nDoS := state.nDoS + level, mode := .invalid }

def invalid (rejectCode : ℕ) (rejectReason : String) : ValidationState :=
  state.doS 0 rejectCode rejectReason false

/-- `Error`, and `Abort` without its message. -/
def error (rejectReason : String) : ValidationState :=
  { state with
    mode := .error
    rejectReason := if state.mode = .valid then rejectReason else state.rejectReason }

def isInvalid : Bool :=
  state.mode = .invalid

end ValidationState

def versioned (tx : SignedTx) : VersionedTx where
  toTx := tx.toTx
  version := tx.version.toInt

/-- `CBlock` with its hash; the signer is the address of a valid public key in the block's
signature. -/
structure Block where
  hash : Hash256
  merkleRoot : Hash256
  version : ℤ
  time : ℤ
  nBits : BitVec 32
  vtx : List SignedTx
  signer : Option Hash160

/-- `CBlockIndex`: the previous block with its height, and what is known of the block. -/
structure BlockIndex where
  prev : Option (Hash256 × ℕ)
  hash : Hash256
  time : ℤ
  /-- `kMiner.IsValid()` -/
  minerKnown : Bool
  /-- `GetUndoPos().IsNull()` -/
  undoMissing : Bool
  /-- `IsValid(BLOCK_VALID_SCRIPTS)` -/
  scriptsValid : Bool
  /-- `IsSuperMajority` for version 3, from the previous block. -/
  superMajority : Bool

namespace BlockIndex

variable (index : BlockIndex)

def height : ℕ :=
  match index.prev with
  | none => 0
  | some prev => prev.2 + 1

/-- `hashPrevBlock` in `ConnectBlock`. -/
def prevHash : Hash256 :=
  match index.prev with
  | none => 0
  | some prev => prev.1

end BlockIndex

/-- The files that `ConnectBlock` writes: whether each attempt succeeds. -/
structure Disk where
  undoSpace : Bool
  undoWritten : Bool
  txIndexWritten : Bool
  permissionsCommitted : Bool
  assetsCommitted : Bool
  /-- `RollBack` of the permissions, when the assets are not committed. -/
  permissionsRolledBack : Bool
deriving DecidableEq

/-- Everything succeeds. -/
def Disk.sound : Disk :=
  ⟨true, true, true, true, true, true⟩

/-- Parameters of the chain and of the node, and functions on hashes, sizes and
scripts.  The permissions that `CheckInputs` reads are those of the state. -/
structure BlockEnv where
  check : CheckEnv
  unspendable : Bytes → Bool
  isDust : TxOut → Bool
  requireStandard : Bool
  time : ℕ
  checkProofOfWork : Hash256 → BitVec 32 → Bool
  adjustedTime : ℤ
  targetSpacing : ℤ
  nodeHash : Hash256 → Hash256 → Hash256
  txSize : SignedTx → ℕ
  blockSize : Block → ℕ
  maxBlockSize : ℕ
  maxBlockSigOps : ℕ
  legacySigOps : SignedTx → ℕ
  p2shSigOps : SignedTx → CoinsOf → ℕ
  bannedTxs : List Hash256
  genesisHash : Hash256
  genesisMiner : Option Hash160
  unsetMiner : Hash160
  checkpointHeight : ℕ
  scriptCheckThreads : Bool
  txIndex : Bool
  /-- `MCP_INITIAL_BLOCK_REWARD` -/
  initialBlockReward : ℤ
  /-- `MCP_FIRST_BLOCK_REWARD` -/
  firstBlockReward : ℤ
  /-- `SubsidyHalvingInterval` -/
  halvingInterval : ℕ
  /-- `AcceptPermissionsAndCheckForDust`, of protocols without streams. -/
  acceptPermissions : SignedTx → Chain → Except String Chain
  /-- `AcceptAssetGenesis` and `AcceptAssetTransfers`, of protocols without streams. -/
  acceptAssets : SignedTx → ℤ → CoinsOf → Chain → Except String Chain

namespace BlockEnv

variable (env : BlockEnv)

def params : ChainParams :=
  env.check.params

def moneyRange (value : ℤ) : Bool :=
  env.check.moneyRange value

/-- What `CheckInputs` reads. -/
def checkEnv (chain : Chain) : CheckEnv :=
  { env.check with permissions := chain.permissions }

/-- `mc_Script` of the output that an input spends. -/
def spentScript (coinsOf : CoinsOf) (prevout : OutPoint) : Bytes :=
  match coinsOf prevout.hash with
  | none => []
  | some found => ((found.coins.vout[prevout.n]?).map TxOut.scriptPubKey).getD []

/-- What `AcceptMultiChainTransaction` reads. -/
def txEnv (coinsOf : CoinsOf) : TxEnv where
  params := env.params
  script := env.check.script
  spentScript := spentScript coinsOf
  time := env.time
  requireStandard := env.requireStandard
  isDust := env.isDust

end BlockEnv

structure World where
  state : ValidationState
  chain : Chain
  coinsOf : CoinsOf
  bestBlock : Hash256
  bannedBlocks : List Hash256

/-- A check that does not succeed returns false, or does not return: an exception is thrown,
or an assertion fails. -/
inductive Refusal where
  | refused
  | thrown
deriving DecidableEq

/-- A check that returns true or false. -/
abbrev BlockM := EStateM Refusal World

/-- `return false`, where the validation state was changed before. -/
def refuse {α : Type} (change : ValidationState → ValidationState) : BlockM α := do
  modify fun world => { world with state := change world.state }
  throw .refused

/-- `return state.DoS(level, error(...), code, reason)` under a condition. -/
def refuseIf (condition : Bool) (level rejectCode : ℕ) (rejectReason : String)
    (corruption : Bool) : BlockM Unit :=
  if condition then refuse fun state => state.doS level rejectCode rejectReason corruption
  else pure ()

def assertThat (condition : Bool) : BlockM Unit :=
  if condition then pure () else throw .thrown

end Amberchain.Validation

/-!
# Checking a block

`CheckTransaction` and `CheckBlock`, with the way in which each of their exits fills the
validation state.
-/

namespace Amberchain.Validation

open Interpreter Transaction

variable (env : BlockEnv)

/-- The loop over the output values of `CheckTransaction`. -/
def checkValues : List TxOut → ℤ → BlockM Unit
  | [], _ => pure ()
  | out :: outs, total => do
    refuseIf (out.value < 0) 100 REJECT_INVALID "bad-txns-vout-negative" false
    refuseIf (env.check.maxMoney < out.value) 100 REJECT_INVALID "bad-txns-vout-toolarge" false
    refuseIf (!env.moneyRange (total + out.value)) 100 REJECT_INVALID
      "bad-txns-txouttotal-toolarge" false
    checkValues outs (total + out.value)

/-- The end of `CheckTransaction`: the script of a coinbase, or the inputs of another
transaction. -/
def checkOrigin (tx : SignedTx) : BlockM Unit :=
  if tx.isCoinBase then
    let size := ((tx.vin.head?.map TxIn.scriptSig).getD []).length
    refuseIf (size < 2 || 100 < size) 100 REJECT_INVALID "bad-cb-length" false
  else
    refuseIf (tx.vin.any fun input => input.prevout.isNull) 10 REJECT_INVALID
      "bad-txns-prevout-null" false

def checkTransaction (tx : SignedTx) : BlockM Unit := do
  refuseIf tx.vin.isEmpty 10 REJECT_INVALID "bad-txns-vin-empty" false
  refuseIf tx.vout.isEmpty 10 REJECT_INVALID "bad-txns-vout-empty" false
  refuseIf (env.maxBlockSize < env.txSize tx) 100 REJECT_INVALID "bad-txns-oversize" false
  checkValues env tx.vout 0
  refuseIf (!decide (tx.vin.map TxIn.prevout).Nodup) 100 REJECT_INVALID
    "bad-txns-inputs-duplicate" false
  checkOrigin tx

def checkBlockHeader (block : Block) (checkPOW : Bool) : BlockM Unit := do
  refuseIf (checkPOW && !env.checkProofOfWork block.hash block.nBits) 50 REJECT_INVALID
    "high-hash" false
  refuseIf (env.adjustedTime + 2 * 6 * env.targetSpacing < block.time) 0 REJECT_INVALID
    "time-too-new" false

/-- The merkle root of `CheckBlock`. -/
def checkMerkleRoot (block : Block) : BlockM Unit := do
  let leaves := block.vtx.map fun tx => tx.hash
  refuseIf (block.merkleRoot ≠ (MerkleTree.root? env.nodeHash leaves).getD 0) 100 REJECT_INVALID
    "bad-txnmrklroot" true
  refuseIf (MerkleTree.mutated env.nodeHash leaves) 100 REJECT_INVALID "bad-txns-duplicate" true

/-- `CheckBlock` up to the transactions. -/
def checkShape (block : Block) (checkPOW checkRoot : Bool) : BlockM Unit := do
  checkBlockHeader env block checkPOW
  (if checkRoot then checkMerkleRoot env block else pure ())
  refuseIf (block.vtx.isEmpty || env.maxBlockSize < block.vtx.length
    || env.maxBlockSize < env.blockSize block) 100 REJECT_INVALID "bad-blk-length" false
  refuseIf (!(block.vtx.head?.map fun tx => tx.isCoinBase).getD false) 100 REJECT_INVALID
    "bad-cb-missing" false
  refuseIf (block.vtx.tail.any fun tx => tx.isCoinBase) 100 REJECT_INVALID "bad-cb-multiple" false
  block.vtx.forM (checkTransaction env)

local instance lawfulHash : LawfulBEq Hash256 := inferInstance

/-- A transaction of the block is banned: `IsTxBanned`. -/
def hasBannedTx (block : Block) : Bool :=
  block.vtx.any fun tx => tx.hash ∈ env.bannedTxs

/-- The block goes to `setBannedTxBlocks`, and `CheckBlock` returns false. -/
def checkBanned (block : Block) : BlockM Unit :=
  if hasBannedTx env block then do
    modify fun world =>
      if block.hash ∈ world.bannedBlocks then world
      else { world with bannedBlocks := world.bannedBlocks ++ [block.hash] }
    throw .refused
  else pure ()

def checkBlock (block : Block) (checkPOW checkRoot : Bool) : BlockM Unit := do
  checkShape env block checkPOW checkRoot
  checkBanned env block
  refuseIf (env.maxBlockSigOps < (block.vtx.map env.legacySigOps).sum) 100 REJECT_INVALID
    "bad-blk-sigops" true

end Amberchain.Validation
