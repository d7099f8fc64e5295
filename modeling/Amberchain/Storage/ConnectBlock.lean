import Amberchain.Storage.Coins

/-!
# Connecting and disconnecting a block

What `ConnectBlock` does to the coins of a view, the undo data it writes, and
`DisconnectBlock`, which takes the block back.
-/

namespace Amberchain.Storage

open Transaction

/-- The transactions of `CBlock`. -/
structure Block where
  vtx : List VersionedTx

/-- `CBlockIndex` of a block with a parent.  The hash zero stands for no block. -/
structure BlockIndex where
  hash : Hash256
  prevHash : Hash256
  prevHeight : ℕ
  hash_ne_zero : hash ≠ 0
  prevHash_ne_zero : prevHash ≠ 0

def BlockIndex.height (index : BlockIndex) : ℤ :=
  index.prevHeight + 1

/-- What is read besides the view: parameters, and the checks that only refuse.
These are the header, the merkle root and the sizes of a block, and for a transaction
in its place the amounts, the scripts and what permissions and assets say. -/
structure ConnectEnv where
  unspendable : Bytes → Bool
  maxMoney : ℤ
  oversized : VersionedTx → Bool
  checkBlockHeader : Block → Bool
  checkInputs : Block → ℕ → CoinsStack → Bool
  acceptBlock : Block → CoinsStack → Bool

section Checks

variable (env : ConnectEnv)

def ConnectEnv.moneyRange (value : ℤ) : Bool :=
  0 ≤ value ∧ value ≤ env.maxMoney

/-- The loop over the output values of `CheckTransaction`. -/
def addValue (total : ℤ) (out : TxOut) : Option ℤ :=
  if out.value < 0 then none
  else if out.value > env.maxMoney then none
  else if !env.moneyRange (total + out.value) then none
  else some (total + out.value)

def checkTransaction (tx : VersionedTx) : Bool :=
  tx.vin.length ≠ 0 ∧ tx.vout.length ≠ 0 ∧ env.oversized tx = false ∧
    (tx.vout.foldlM (addValue env) 0).isSome ∧ (tx.vin.map TxIn.prevout).Nodup ∧
      if tx.isCoinBase then
        ∀ input ∈ tx.vin, 2 ≤ input.scriptSig.length ∧ input.scriptSig.length ≤ 100
      else ∀ input ∈ tx.vin, input.prevout.isNull = false

/-- `CheckBlock`, here or when the block was received. -/
def checkBlock (block : Block) : Bool :=
  env.checkBlockHeader block && block.vtx.all (checkTransaction env) &&
    match block.vtx with
    | [] => false
    | coinbase :: txs => coinbase.isCoinBase && txs.all fun tx => !tx.isCoinBase

end Checks

/-- The undo data of an input once it has been written and read: of a negative version
`VARINT` keeps the low seven bits. -/
def TxInUndo.stored (undo : TxInUndo) : TxInUndo :=
  { undo with version := if undo.version < 0 then undo.version % 128 else undo.version }

abbrev TxUndo :=
  List TxInUndo

/-- `ReadFromDisk` of what `WriteToDisk` wrote. -/
def storedUndo (blockUndo : List TxUndo) : List TxUndo :=
  blockUndo.map fun txUndo => txUndo.map TxInUndo.stored

namespace CoinsStack

/-- The coins that `ModifyCoins` gives to its caller. -/
def coinsToModify (view : CoinsStack) (txid : Hash256) : Coins :=
  match view.caches with
  | [] => .empty
  | cache :: below => (entryToModify view.db cache below txid).1.coins

/-- `HaveInputs` of a transaction that is not a coinbase. -/
def haveInputs : List TxIn → CoinsStack → Bool × CoinsStack
  | [], view => (true, view)
  | input :: inputs, view =>
    let (found, view) := view.getCoins input.prevout.hash
    match found with
    | none => (false, view)
    | some coins => if coins.isAvailable input.prevout.n then haveInputs inputs view else (false, view)

/-- `Spend` of the coins of an input; none when the assertion fails. -/
def spendInput (view : CoinsStack) (prevout : OutPoint) : Option (CoinsStack × TxInUndo) :=
  ((view.coinsToModify prevout.hash).spend prevout.n).map fun (coins, undo) =>
    (view.modifyCoins prevout.hash fun _ => coins, undo)

/-- The loop over the inputs of `UpdateCoins`. -/
def spendInputs : List TxIn → CoinsStack → Option (CoinsStack × TxUndo)
  | [], view => some (view, [])
  | input :: inputs, view => do
    let (view, undo) ← view.spendInput input.prevout
    let (view, undos) ← spendInputs inputs view
    some (view, undo :: undos)

variable (env : ConnectEnv) (block : Block) (index : BlockIndex)

def updateCoins (tx : VersionedTx) (view : CoinsStack) : Option (CoinsStack × TxUndo) :=
  (if tx.isCoinBase then some (view, []) else spendInputs tx.vin view).map fun (view, undo) =>
    (view.modifyCoins tx.hash fun _ => .fromTx env.unspendable tx index.height, undo)

/-- The checks of the `i`-th transaction. -/
def checkTx (i : ℕ) (tx : VersionedTx) (view : CoinsStack) : Option CoinsStack :=
  if tx.isCoinBase then some view
  else
    let (present, view) := haveInputs tx.vin view
    if !present then none else if !env.checkInputs block i view then none else some view

/-- The loop of `ConnectBlock`, with the undo data of all transactions. -/
def connectTxs : List VersionedTx → ℕ → CoinsStack → Option (CoinsStack × List TxUndo)
  | [], _, view => some (view, [])
  | tx :: txs, i, view => do
    let view ← checkTx env block i tx view
    let (view, undo) ← updateCoins env index tx view
    let (view, undos) ← connectTxs txs (i + 1) view
    some (view, undo :: undos)

/-- `ConnectBlock` of a block that is not the genesis block, with its undo data, which
leaves the coinbase out. -/
def connectBlock (view : CoinsStack) : Option (CoinsStack × List TxUndo) :=
  if !checkBlock env block then none
  else
    let (hashBlock, view) := view.getBestBlock
    if index.prevHash ≠ hashBlock then none
    else
      match connectTxs env block index block.vtx 0 view with
      | none => none
      | some (view, undos) =>
        if !env.acceptBlock block view then none
        else some (view.setBestBlock index.hash, undos.tail)

/-- The outputs of a transaction go; the flag tells whether they are those in the
view. -/
def removeOutputs (tx : VersionedTx) (view : CoinsStack) : CoinsStack × Bool :=
  let outs := (view.coinsToModify tx.hash).clearUnspendable env.unspendable
  let outsBlock := Coins.fromTx env.unspendable tx index.height
  let outs := if outsBlock.version < 0 then { outs with version := outsBlock.version } else outs
  (view.modifyCoins tx.hash fun _ => .empty, outs.same outsBlock)

/-- `vout` grows when it is too short. -/
def putOut (vout : List TxOut) (n : ℕ) (out : TxOut) : List TxOut :=
  (vout ++ List.replicate (n + 1 - vout.length) nullOut).set n out

def restoreInput (view : CoinsStack) (prevout : OutPoint) (undo : TxInUndo) : CoinsStack × Bool :=
  let found := view.coinsToModify prevout.hash
  let coins := if undo.height ≠ 0 then ⟨undo.coinBase, [], undo.height, undo.version⟩ else found
  let fits := if undo.height ≠ 0 then found.isPruned else !found.isPruned
  (view.modifyCoins prevout.hash fun _ =>
      { coins with vout := putOut coins.vout prevout.n undo.txout },
    fits && !coins.isAvailable prevout.n)

def restoreInputs : List (TxIn × TxInUndo) → CoinsStack → CoinsStack × Bool
  | [], view => (view, true)
  | (input, undo) :: later, view =>
    let (view, clean) := restoreInputs later view
    let (view, fits) := view.restoreInput input.prevout undo
    (view, clean && fits)

/-- One round of the loop of `DisconnectBlock`; the coinbase has no undo data. -/
def disconnectTx (tx : VersionedTx) (txUndo : Option TxUndo) (view : CoinsStack) :
    Option (CoinsStack × Bool) :=
  let (view, clean) := removeOutputs env index tx view
  match txUndo with
  | none => some (view, clean)
  | some undos =>
    if undos.length ≠ tx.vin.length then none
    else
      let (view, fits) := restoreInputs (tx.vin.zip undos) view
      some (view, clean && fits)

/-- The transactions, from the last one. -/
def disconnectTxs : List (VersionedTx × Option TxUndo) → CoinsStack → Option (CoinsStack × Bool)
  | [], view => some (view, true)
  | (tx, txUndo) :: later, view => do
    let (view, clean) ← disconnectTxs later view
    let (view, fits) ← disconnectTx env index tx txUndo view
    some (view, clean && fits)

/-- `DisconnectBlock` with `pfClean`, which is the flag of the result; none for a
result false or a failing assertion. -/
def disconnectBlock (blockUndo : List TxUndo) (view : CoinsStack) : Option (CoinsStack × Bool) :=
  let (hashBlock, view) := view.getBestBlock
  if index.hash ≠ hashBlock then none
  else if blockUndo.length + 1 ≠ block.vtx.length then none
  else
    (disconnectTxs env index (block.vtx.zip (none :: blockUndo.map some)) view).map
      fun (view, clean) => (view.setBestBlock index.prevHash, clean)

end CoinsStack

end Amberchain.Storage
