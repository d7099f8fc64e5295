import Amberchain.Storage.Coins
import Mathlib.Data.List.Sort

/-!
# Memory pool

`CTxMemPool`: the transactions by hash, the inputs that they spend, the sum of their
sizes, and the list of hashes that keeps their order.  Rows of the list stay behind
when transactions are removed, until the list is defragmented.
-/

namespace Amberchain.MemPool

open Transaction

structure TxMemPoolEntry where
  tx : Tx
  txSize : ℕ

structure InPoint where
  ptx : Tx
  n : ℕ

structure TxMemPool where
  mapTx : AList fun _ : Hash256 => TxMemPoolEntry
  mapNextTx : AList fun _ : OutPoint => InPoint
  totalTxSize : ℕ
  hashList : List Hash256
  hashListPos : ℕ

namespace TxMemPool

def empty : TxMemPool where
  mapTx := ∅
  mapNextTx := ∅
  totalTxSize := 0
  hashList := []
  hashListPos := 0

variable (pool : TxMemPool)

def exists_ (hash : Hash256) : Bool :=
  (pool.mapTx.lookup hash).isSome

def addUnchecked (hash : Hash256) (entry : TxMemPoolEntry) : TxMemPool where
  mapTx := pool.mapTx.insert hash entry
  mapNextTx := entry.tx.vin.zipIdx.foldl
    (fun mapNextTx input => mapNextTx.insert input.1.prevout ⟨entry.tx, input.2⟩) pool.mapNextTx
  totalTxSize := pool.totalTxSize + entry.txSize
  hashList :=
    if pool.hashListPos < pool.hashList.length then pool.hashList.set pool.hashListPos hash
    else pool.hashList ++ [hash]
  hashListPos :=
    if pool.hashListPos < pool.hashList.length then pool.hashListPos + 1
    else pool.hashList.length + 1

def defragmentHashList : TxMemPool :=
  let rows := pool.hashList.filter pool.exists_
  { pool with hashList := rows, hashListPos := rows.length }

def shiftHashList (rows : ℕ) : TxMemPool :=
  { pool with hashList := List.replicate rows 0 ++ pool.hashList, hashListPos := 0 }

/-- The transactions that spend one of the first outputs under a hash. -/
def children (hash : Hash256) (outs : ℕ) : List Hash256 :=
  (List.range outs).filterMap fun i =>
    (pool.mapNextTx.lookup ⟨hash, i⟩).map fun inPoint => inPoint.ptx.hash

def removeEntry (hash : Hash256) (entry : TxMemPoolEntry) : TxMemPool :=
  { pool with
    mapTx := pool.mapTx.erase hash
    mapNextTx := entry.tx.vin.foldl (fun mapNextTx input => mapNextTx.erase input.prevout)
      pool.mapNextTx
    totalTxSize := pool.totalTxSize - entry.txSize }

/-- The loop of `remove` over `txToRemove`; none when the rounds are used up. -/
def removeLoop (recursive : Bool) :
    ℕ → List Hash256 → List Tx → TxMemPool → Option (TxMemPool × List Tx)
  | _, [], removed, pool => some (pool, removed)
  | 0, _ :: _, _, _ => none
  | rounds + 1, hash :: txToRemove, removed, pool =>
    match pool.mapTx.lookup hash with
    | none => removeLoop recursive rounds txToRemove removed pool
    | some entry =>
      let orphans := if recursive then pool.children hash entry.tx.vout.length else []
      removeLoop recursive rounds (txToRemove ++ orphans) (removed ++ [entry.tx])
        (pool.removeEntry hash entry)

def rounds (txToRemove : List Hash256) : ℕ :=
  txToRemove.length + (pool.mapTx.entries.map fun entry => entry.2.tx.vout.length).sum

/-- `txToRemove` at the start of `remove`. -/
def startRemove (origTx : Tx) (recursive : Bool) : List Hash256 :=
  origTx.hash ::
    if recursive && !pool.exists_ origTx.hash then pool.children origTx.hash origTx.vout.length
    else []

def remove (origTx : Tx) (removed : List Tx) (recursive : Bool) : Option (TxMemPool × List Tx) :=
  let txToRemove := pool.startRemove origTx recursive
  removeLoop recursive (pool.rounds txToRemove) txToRemove removed pool

/-- One round of the loop of `removeConflicts`. -/
def removeConflict (tx : Tx) (state : TxMemPool × List Tx) (input : TxIn) :
    Option (TxMemPool × List Tx) :=
  match state.1.mapNextTx.lookup input.prevout with
  | none => some state
  | some inPoint =>
    if inPoint.ptx.hash ≠ tx.hash then state.1.remove inPoint.ptx state.2 true else some state

def removeConflicts (tx : Tx) (removed : List Tx) : Option (TxMemPool × List Tx) :=
  tx.vin.foldlM (removeConflict tx) (pool, removed)

/-- One round of the loop of `removeForBlock`. -/
def removeMined (state : TxMemPool × List Tx) (tx : Tx) : Option (TxMemPool × List Tx) := do
  let (pool, _) ← state.1.remove tx [] false
  pool.removeConflicts tx state.2

def removeForBlock (vtx : List Tx) (conflicts : List Tx) : Option (TxMemPool × List Tx) :=
  vtx.foldlM removeMined (pool, conflicts)

def immature (coins : Hash256 → Option Storage.Coins) (memPoolHeight maturity : ℕ)
    (input : TxIn) : Bool :=
  if pool.exists_ input.prevout.hash then false
  else
    match coins input.prevout.hash with
    | none => true
    | some found => found.coinBase ∧ (memPoolHeight - found.height) % 2 ^ 32 < maturity

/-- `transactionsToRemove`, in the order of the map. -/
def immatureSpends (coins : Hash256 → Option Storage.Coins) (memPoolHeight maturity : ℕ) :
    List Tx :=
  ((pool.mapTx.entries.mergeSort fun first second => first.1.toNat ≤ second.1.toNat).map
      fun entry => entry.2.tx).filter fun tx =>
    tx.vin.any (pool.immature coins memPoolHeight maturity)

def removeCoinbaseSpends (coins : Hash256 → Option Storage.Coins) (memPoolHeight maturity : ℕ) :
    Option TxMemPool :=
  (pool.immatureSpends coins memPoolHeight maturity).foldlM
    (fun pool tx => (pool.remove tx [] true).map Prod.fst) pool

end TxMemPool

inductive PoolOp where
  | addUnchecked (hash : Hash256) (entry : TxMemPoolEntry)
  | remove (origTx : Tx) (recursive : Bool)
  | removeConflicts (tx : Tx)
  | removeForBlock (vtx : List Tx)
  | removeCoinbaseSpends (coins : Hash256 → Option Storage.Coins) (memPoolHeight maturity : ℕ)
  | defragmentHashList
  | shiftHashList (rows : ℕ)

namespace TxMemPool

def perform (pool : TxMemPool) : PoolOp → Option TxMemPool
  | .addUnchecked hash entry => some (pool.addUnchecked hash entry)
  | .remove origTx recursive => (pool.remove origTx [] recursive).map Prod.fst
  | .removeConflicts tx => (pool.removeConflicts tx []).map Prod.fst
  | .removeForBlock vtx => (pool.removeForBlock vtx []).map Prod.fst
  | .removeCoinbaseSpends coins memPoolHeight maturity =>
    pool.removeCoinbaseSpends coins memPoolHeight maturity
  | .defragmentHashList => some pool.defragmentHashList
  | .shiftHashList rows => some (pool.shiftHashList rows)

def run (pool : TxMemPool) (ops : List PoolOp) : Option TxMemPool :=
  ops.foldlM perform pool

end TxMemPool

end Amberchain.MemPool
