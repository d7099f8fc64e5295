import Amberchain.Entity.Commit
import Amberchain.Permission.Commit
import Amberchain.Validation.State

/-!
# Connecting a block

`ConnectBlock` with all its exits: the permissions of the miner, the transactions, the
coinbase, the files and the databases.
-/

namespace Amberchain.Validation

open Interpreter Permission Storage Transaction

variable (env : BlockEnv)

/-- A result of `CAmount` arithmetic, in 64 bits with a sign. -/
def toAmount (value : ℤ) : ℤ :=
  value.bmod (2 ^ 64)

def getBlockValue (height : ℕ) (fees : ℤ) : ℤ :=
  let subsidy :=
    if height = 1 ∧ 0 ≤ env.firstBlockReward then env.firstBlockReward
    else env.initialBlockReward
  let halvings := height / env.halvingInterval
  if 64 ≤ halvings then fees else toAmount (subsidy / 2 ^ halvings + fees)

/-- `CheckBlockPermissions`: the address of the miner, or none.  The mempool is set aside while
the permission is read. -/
def checkBlockPermissions (block : Block) (index : BlockIndex) (store : Store) :
    Option Hash160 × Store :=
  if !env.params.isProtocolMultichain then (some env.unsetMiner, store)
  else
    let cleared := store.copyMemPool.clearMemPool
    let miner :=
      match index.prev with
      | some _ => block.signer.filter fun miner => cleared.canMine env.params nullEntity miner ≠ 0
      | none => env.genesisMiner
    (miner, cleared.restoreMemPool)

def checkMiner (block : Block) (index : BlockIndex) (justCheck : Bool) : BlockM Hash160 :=
  if justCheck then pure env.unsetMiner
  else do
    let world ← get
    let checked := checkBlockPermissions env block index world.chain.permissions
    set { world with chain := { world.chain with permissions := checked.2 } }
    match checked.1 with
    | none => refuse fun state => state.doS 100 REJECT_INVALID "bad-perm-chngs" false
    | some miner => pure miner

/-- Both databases forget their mempools. -/
def clearMemPools : BlockM Unit :=
  modify fun world =>
    { world with
      chain := { world.chain with
        permissions := world.chain.permissions.clearMemPool
        assets := world.chain.assets.clearMemPool } }

/-- The coins as `CheckInputs` sees them. -/
def coinsView (index : BlockIndex) (coinsOf : CoinsOf) : CoinsView where
  coins := fun txid => (coinsOf txid).map LiveCoins.coins
  height := (index.height : ℤ) - 1

/-- What an exit of `CheckInputs` does to the validation state. -/
def fillInputsError : InputsError → ValidationState → ValidationState
  | .unavailable, state => state.invalid 0 ""
  | .prematureSpendOfCoinbase, state =>
    state.invalid REJECT_INVALID "bad-txns-premature-spend-of-coinbase"
  | .inputValuesOutOfRange, state =>
    state.doS 100 REJECT_INVALID "bad-txns-inputvalues-outofrange" false
  | .noSendPermission _, state => state.invalid 0 ""
  | .valueOutOutOfRange, state => state
  | .inBelowOut, state => state.doS 100 REJECT_INVALID "bad-txns-in-belowout" false
  | .feeOutOfRange, state => state.doS 100 REJECT_INVALID "bad-txns-fee-outofrange" false
  | .nonMandatoryFlag _, state =>
    state.invalid REJECT_NONSTANDARD "non-mandatory-script-verify-flag"
  | .mandatoryFlag _, state =>
    state.doS 1 REJECT_INVALID "mandatory-script-verify-flag-failed" false

/-- `CheckInputs` with the validation state; `GetValueOut` throws. -/
def checkInputsM (index : BlockIndex) (tx : SignedTx) (scriptChecks : Bool)
    (flags : VerifyFlags) : BlockM (List ScriptCheck) := do
  let world ← get
  match checkInputs (env.checkEnv world.chain) (coinsView index world.coinsOf) tx scriptChecks
      flags env.scriptCheckThreads with
  | .ok queued => pure queued
  | .error .valueOutOutOfRange => throw .thrown
  | .error err => refuse (fillInputsError err)

/-- `GetValueOut`, which throws when a sum is out of range. -/
def valueOut (tx : SignedTx) : BlockM ℤ :=
  match getValueOut env.check tx with
  | .ok value => pure value
  | .error _ => throw .thrown

def spentValue (coinsOf : CoinsOf) (input : TxIn) : ℤ :=
  match coinsOf input.prevout.hash with
  | none => 0
  | some found => ((found.coins.vout[input.prevout.n]?).map TxOut.value).getD 0

/-- `GetValueIn` of a transaction that is not a coinbase, whose outputs are there. -/
def valueIn (coinsOf : CoinsOf) (tx : SignedTx) : ℤ :=
  if !env.params.withNativeCurrency then 0
  else toAmount (tx.vin.map (spentValue coinsOf)).sum

def updateCoins (index : BlockIndex) (tx : SignedTx) : BlockM Unit := do
  let world ← get
  match CoinsOf.spendAll (CoinsOf.spentBy (versioned tx)) world.coinsOf with
  | none => throw .thrown
  | some (spent, _) =>
    set { world with
      coinsOf := Function.update spent tx.hash
        (Coins.fromTx env.unspendable (versioned tx) index.height).live }

/-- The acceptance of a transaction, with the reason of a refusal: protocols without streams
check the permissions alone. -/
def acceptPermissions (tx : SignedTx) (offset : ℤ) (world : World) : Chain × Option String :=
  if env.params.streams then
    let outcome := acceptMultiChainTransaction (env.txEnv world.coinsOf) tx.toTx offset world.chain
      true
    (outcome.chain, outcome.reason)
  else
    match env.acceptPermissions tx world.chain with
    | .error reason => (world.chain, some reason)
    | .ok chain => (chain, none)

def accept (tx : SignedTx) (offset : ℤ) (world : World) : Chain × Option String :=
  let accepted := acceptPermissions env tx offset world
  if env.params.streams || accepted.2.isSome then accepted
  else
    match env.acceptAssets tx offset world.coinsOf accepted.1 with
    | .error reason => (accepted.1, some reason)
    | .ok chain => (chain, none)

def acceptTx (tx : SignedTx) (offset : ℤ) (justCheck : Bool) : BlockM Unit :=
  if justCheck then pure ()
  else do
    let world ← get
    let accepted := accept env tx offset world
    set { world with chain := accepted.1 }
    match accepted.2 with
    | none => pure ()
    | some reason =>
      let code := if env.params.streams then REJECT_NONSTANDARD else REJECT_INVALID
      refuse fun state => state.doS 0 code reason false

def acceptCoinbase (tx : SignedTx) (offset : ℤ) (justCheck : Bool) : BlockM Unit :=
  if justCheck then pure ()
  else do
    let world ← get
    let accepted := acceptPermissions env tx offset world
    set { world with chain := accepted.1 }
    match accepted.2 with
    | none => pure ()
    | some _ => throw .refused

/-- The variables of the loop of `ConnectBlock`: the fees, the signature operations, the
place of the next transaction in the block, and the results of the checks in the queue. -/
structure Totals where
  fees : ℤ
  sigOps : ℕ
  offset : ℤ
  checks : List Bool

structure Rules where
  justCheck : Bool
  scriptChecks : Bool
  p2sh : Bool
  flags : VerifyFlags

/-- `SCRIPT_VERIFY_P2SH` and `SCRIPT_VERIFY_DERSIG`. -/
def blockFlags (p2sh derSig : Bool) : VerifyFlags where
  p2sh := p2sh
  strictEnc := false
  derSig := derSig
  lowS := false
  nullDummy := false
  sigPushOnly := false
  minimalData := false
  discourageUpgradableNops := false
  skipSendPermissionCheck := false

def rulesOf (block : Block) (index : BlockIndex) (justCheck : Bool) : Rules :=
  let p2sh : Bool := 1333238400 ≤ index.time
  { justCheck
    scriptChecks := decide (env.checkpointHeight ≤ index.height) && !justCheck
    p2sh
    flags := blockFlags p2sh (decide (3 ≤ block.version) && index.superMajority) }

/-- `HaveInputs` of a transaction that is not a coinbase. -/
def haveInputs (coinsOf : CoinsOf) (tx : SignedTx) : Bool :=
  tx.vin.all fun input =>
    match coinsOf input.prevout.hash with
    | none => false
    | some found => found.coins.isAvailable input.prevout.n

def checkSpending (index : BlockIndex) (rules : Rules) (tx : SignedTx) (totals : Totals) :
    BlockM Totals := do
  let world ← get
  refuseIf (!haveInputs world.coinsOf tx) 100 REJECT_INVALID "bad-txns-inputs-missingorspent"
    false
  let sigOps := totals.sigOps + if rules.p2sh then env.p2shSigOps tx world.coinsOf else 0
  refuseIf (rules.p2sh && env.maxBlockSigOps < sigOps) 100 REJECT_INVALID "bad-blk-sigops" false
  let value ← valueOut env tx
  let fees := toAmount (totals.fees + (valueIn env world.coinsOf tx - value))
  let queued ← checkInputsM env index tx rules.scriptChecks rules.flags
  let results := queued.map fun check =>
    (check.run (env.checkEnv world.chain) (coinsView index world.coinsOf) tx).toBool
  acceptTx env tx totals.offset rules.justCheck
  pure { totals with fees, sigOps, checks := totals.checks ++ results }

/-- One round of the loop of `ConnectBlock`. -/
def connectTx (index : BlockIndex) (rules : Rules) (totals : Totals) (tx : SignedTx) :
    BlockM Totals := do
  let counted := { totals with sigOps := totals.sigOps + env.legacySigOps tx }
  refuseIf (env.maxBlockSigOps < counted.sigOps) 100 REJECT_INVALID "bad-blk-sigops" false
  let checked ← (if tx.isCoinBase then pure counted
    else checkSpending env index rules tx counted)
  updateCoins env index tx
  pure { checked with offset := checked.offset + env.txSize tx }

/-- The place of the first transaction: behind the header and the number of transactions. -/
def firstOffset (block : Block) : ℤ :=
  80 + 1 + (if 0xfd ≤ block.vtx.length then 2 else 0)
    + (if 0xffff < block.vtx.length then 2 else 0)

def checkOverwrites (block : Block) : BlockM Unit := do
  let world ← get
  refuseIf (!env.params.isProtocolMultichain
    && block.vtx.any fun tx => (world.coinsOf tx.hash).isSome) 100 REJECT_INVALID
    "bad-txns-BIP30" false

/-- The loop over the transactions, and that over the coinbase. -/
def connectTxs (block : Block) (index : BlockIndex) (rules : Rules) : BlockM Totals := do
  let totals ← block.vtx.foldlM (connectTx env index rules) ⟨0, 0, firstOffset block, []⟩
  (block.vtx.filter fun tx => tx.isCoinBase).forM fun tx =>
    acceptCoinbase env tx (firstOffset block) rules.justCheck
  pure totals

def checkSubsidy (index : BlockIndex) (fees : ℤ) (coinbase : SignedTx) : BlockM Unit := do
  let value ← valueOut env coinbase
  refuseIf (getBlockValue env index.height fees < value) 100 REJECT_INVALID "bad-cb-amount" false

def checkCoinbaseValue (block : Block) (index : BlockIndex) (totals : Totals) : BlockM Unit := do
  (match block.vtx with
    | [] => throw .thrown
    | coinbase :: _ => checkSubsidy env index totals.fees coinbase)
  refuseIf (totals.checks.any fun result => !result) 100 0 "" false

def writeUndo (disk : Disk) (index : BlockIndex) : BlockM Unit :=
  if index.undoMissing then
    if !disk.undoSpace then refuse fun state => state.error "out of disk space"
    else if !disk.undoWritten then refuse fun state => state.error "Failed to write undo data"
    else pure ()
  else pure ()

def writeTxIndex (disk : Disk) : BlockM Unit :=
  if env.txIndex && !disk.txIndexWritten then
    refuse fun state => state.error "Failed to write transaction index"
  else pure ()

/-- `Commit` of the assets; where a write fails, they are rolled back to the block they were at. -/
def commitAssets (disk : Disk) (assets : Entity.AssetDB) : Entity.AssetDB × Option McError :=
  if disk.assetsCommitted then assets.commit env.params
  else
    let loop := assets.commitLoop env.params
    let written := { loop.assets with pos := loop.assets.pos + loop.size }
    ((written.rollBack env.params assets.block).1, some .internalError)

/-- Permissions and assets are committed; behind the genesis block the permissions are rolled back
when the assets are not. -/
def commitChain (disk : Disk) (block : Block) (miner : Hash160) (genesis : Bool) :
    BlockM Unit := do
  refuseIf (!disk.permissionsCommitted) 100 REJECT_INVALID "bad-prm-commit" false
  let world ← get
  let permissions := world.chain.permissions.commit env.params miner block.hash
  let committed := commitAssets env disk world.chain.assets
  match committed.2 with
  | none =>
    set { world with chain := { world.chain with permissions, assets := committed.1 } }
  | some _ => do
    set { world with
      chain := { world.chain with
        permissions :=
          if genesis || !disk.permissionsRolledBack then permissions
          else permissions.rollBack (permissions.block - 1)
        assets := committed.1 } }
    refuse fun state => state.doS 100 REJECT_INVALID "bad-prm-commit" false

def setBestBlock (hash : Hash256) : BlockM Unit :=
  modify fun world => { world with bestBlock := hash }

def connectGenesisTx (offset : ℤ) (tx : SignedTx) : BlockM ℤ := do
  let world ← get
  let accepted := acceptPermissions env tx offset world
  set { world with chain := accepted.1 }
  match accepted.2 with
  | none => pure (offset + env.txSize tx)
  | some _ => refuse fun state => state.doS 100 REJECT_INVALID "bad-transaction" false

def connectGenesis (disk : Disk) (block : Block) (index : BlockIndex) (miner : Hash160) :
    BlockM ℤ := do
  let _ ← block.vtx.foldlM (connectGenesisTx env) (firstOffset block)
  commitChain env disk block miner true
  setBestBlock index.hash
  pure 0

/-- `ConnectBlock` up to the transactions. -/
def beginBlock (block : Block) (index : BlockIndex) (justCheck : Bool) : BlockM Hash160 := do
  (if !index.minerKnown || !env.bannedTxs.isEmpty then
    checkBlock env block (!justCheck) (!justCheck)
  else pure ())
  let miner ← checkMiner env block index justCheck
  let world ← get
  assertThat (index.prevHash = world.bestBlock)
  (if justCheck then pure () else clearMemPools)
  pure miner

/-- `ConnectBlock` behind the transactions. -/
def finishBlock (disk : Disk) (block : Block) (index : BlockIndex) (justCheck : Bool)
    (miner : Hash160) (totals : Totals) : BlockM Unit := do
  checkCoinbaseValue env block index totals
  if justCheck then pure ()
  else do
    (if index.undoMissing || !index.scriptsValid then writeUndo disk index else pure ())
    writeTxIndex env disk
    commitChain env disk block miner false
    setBestBlock index.hash

/-- `ConnectBlock`, with the fees that it adds up. -/
def connectBlock (disk : Disk) (block : Block) (index : BlockIndex) (justCheck : Bool) :
    BlockM ℤ := do
  let miner ← beginBlock env block index justCheck
  if block.hash = env.genesisHash then connectGenesis env disk block index miner
  else do
    checkOverwrites env block
    let totals ← connectTxs env block index (rulesOf env block index justCheck)
    finishBlock env disk block index justCheck miner totals
    pure totals.fees

end Amberchain.Validation
