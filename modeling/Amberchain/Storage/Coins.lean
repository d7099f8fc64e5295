import Amberchain.Transaction.Types
import Mathlib.Data.List.DropRight

/-!
# Coins

`CCoins`: what is left of a transaction, the outputs that are not spent.  Spent
outputs are null, and null outputs at the end are dropped.
-/

namespace Amberchain.Storage

open Transaction

deriving instance DecidableEq for TxOut

/-- `SetNull` -/
def nullOut : TxOut where
  value := -1
  scriptPubKey := []

def isNull (out : TxOut) : Bool :=
  out.value = -1

/-- `CTransaction` with its version. -/
structure VersionedTx extends Tx where
  version : ℤ

structure Coins where
  coinBase : Bool
  vout : List TxOut
  height : ℤ
  version : ℤ
deriving DecidableEq

/-- `CTxInUndo`: the output, and when it was the last one the rest of its coins;
height `0` stands for none. -/
structure TxInUndo where
  txout : TxOut
  coinBase : Bool
  height : ℤ
  version : ℤ
deriving DecidableEq

namespace Coins

/-- `CCoins()`, and `Clear` -/
def empty : Coins where
  coinBase := false
  vout := []
  height := 0
  version := 0

variable (coins : Coins)

def cleanup : Coins :=
  { coins with vout := coins.vout.rdropWhile isNull }

def isPruned : Bool :=
  coins.vout.all isNull

def isAvailable (n : ℕ) : Bool :=
  match coins.vout[n]? with
  | some out => !isNull out
  | none => false

/-- `Spend`: the coins without the output, and what is needed to undo it. -/
def spend (n : ℕ) : Option (Coins × TxInUndo) :=
  match coins.vout[n]? with
  | none => none
  | some out =>
    if isNull out then none
    else
      let left := cleanup { coins with vout := coins.vout.set n nullOut }
      some (left,
        if left.vout = [] then ⟨out, coins.coinBase, coins.height, coins.version⟩
        else ⟨out, false, 0, 0⟩)

/-- `operator==`: pruned coins are all equal. -/
def same (other : Coins) : Bool :=
  coins.isPruned ∧ other.isPruned ∨ coins = other

/-- `ClearUnspendable`, with `CScript::IsUnspendable` as a parameter. -/
def clearUnspendable (unspendable : Bytes → Bool) : Coins :=
  cleanup { coins with
    vout := coins.vout.map fun out => if unspendable out.scriptPubKey then nullOut else out }

def fromTx (unspendable : Bytes → Bool) (tx : VersionedTx) (height : ℤ) : Coins :=
  clearUnspendable ⟨tx.isCoinBase, tx.vout, height, tx.version⟩ unspendable

end Coins

@[simp]
theorem isNull_nullOut : isNull nullOut = true :=
  rfl

theorem all_isNull_rdropWhile (outs : List TxOut) :
    (outs.rdropWhile isNull).all isNull = outs.all isNull := by
  induction outs using List.reverseRecOn with
  | nil => rfl
  | append_singleton outs out ih =>
    by_cases hnull : isNull out = true
    · rw [List.rdropWhile_concat_pos _ _ _ hnull, ih]
      simp [hnull]
    rw [List.rdropWhile_concat_neg _ _ _ hnull]

theorem rdropWhile_eq_nil_iff_all {outs : List TxOut} :
    outs.rdropWhile isNull = [] ↔ outs.all isNull = true := by
  rw [List.rdropWhile_eq_nil_iff, List.all_eq_true]

namespace Coins

variable {coins : Coins}

@[simp]
theorem isPruned_cleanup : coins.cleanup.isPruned = coins.isPruned :=
  all_isNull_rdropWhile coins.vout

@[simp]
theorem cleanup_cleanup : coins.cleanup.cleanup = coins.cleanup := by
  unfold cleanup
  rw [List.rdropWhile_idempotent]

@[simp]
theorem isPruned_empty : empty.isPruned = true :=
  rfl

theorem vout_eq_nil_iff (hclean : coins.cleanup = coins) :
    coins.vout = [] ↔ coins.isPruned = true := by
  have hvout : coins.vout.rdropWhile isNull = coins.vout := congrArg Coins.vout hclean
  rw [← hvout]
  exact rdropWhile_eq_nil_iff_all.trans (by rw [← all_isNull_rdropWhile]; rw [hvout]; rfl)

end Coins

/-- Coins with an output that is not spent, without null outputs at the end. -/
structure LiveCoins where
  coins : Coins
  unspent : coins.isPruned = false
  clean : coins.cleanup = coins

theorem LiveCoins.ext {first second : LiveCoins} (hcoins : first.coins = second.coins) :
    first = second := by
  cases first
  cases second
  congr

def Coins.live (coins : Coins) : Option LiveCoins :=
  if hpruned : coins.isPruned = true then none
  else
    some
      { coins := coins.cleanup
        unspent := by rw [isPruned_cleanup]; exact Bool.eq_false_iff.mpr hpruned
        clean := cleanup_cleanup }

namespace Coins

variable {coins : Coins}

theorem live_of_pruned (hpruned : coins.isPruned = true) : coins.live = none :=
  dif_pos hpruned

theorem live_eq_none_iff : coins.live = none ↔ coins.isPruned = true := by
  unfold live
  split
  · rename_i hpruned
    simp [hpruned]
  rename_i hpruned
  simp [hpruned]

theorem live_eq_some {found : LiveCoins} (hclean : coins.cleanup = coins)
    (hlive : coins.live = some found) : found.coins = coins := by
  unfold live at hlive
  split at hlive
  · cases hlive
  rw [← Option.some.inj hlive]
  exact hclean

@[simp]
theorem live_cleanup : coins.cleanup.live = coins.live := by
  unfold live
  by_cases hpruned : coins.isPruned = true
  · rw [dif_pos (by rw [isPruned_cleanup]; exact hpruned), dif_pos hpruned]
  rw [dif_neg (by rw [isPruned_cleanup]; exact hpruned), dif_neg hpruned]
  exact congrArg some (LiveCoins.ext cleanup_cleanup)

end Coins

@[simp]
theorem LiveCoins.live_coins (found : LiveCoins) : found.coins.live = some found := by
  unfold Coins.live
  rw [dif_neg (by rw [found.unspent]; exact Bool.false_ne_true)]
  exact congrArg some (LiveCoins.ext found.clean)

end Amberchain.Storage

/-!
# Stacked coin caches

`CCoinsViewCache` over other caches, with the coin database at the bottom.  A cache
that does not know a txid asks its parent and remembers the answer.  The flags of
an entry say what has to be told to the parent later.
-/

namespace Amberchain.Storage

/-- `CCoinsCacheEntry`: dirty when it may differ from the parent, fresh when the
parent has no coins for it. -/
structure CoinsCacheEntry where
  coins : Coins
  dirty : Bool
  fresh : Bool
deriving DecidableEq

abbrev CoinsMap :=
  AList fun _ : Hash256 => CoinsCacheEntry

/-- `CCoinsViewCache` without its base. -/
structure CoinsCache where
  hashBlock : Hash256
  cacheCoins : CoinsMap

/-- `CCoinsViewDB`: it holds coins that are not pruned, and the hash zero when it
has no best block. -/
structure CoinsDB where
  coins : Hash256 → Option LiveCoins
  bestBlock : Hash256

namespace CoinsDB

def writeCoins (db : CoinsDB) (txid : Hash256) (coins : Coins) : CoinsDB :=
  { db with coins := Function.update db.coins txid coins.live }

def batchWrite (db : CoinsDB) (mapCoins : CoinsMap) (hashBlock : Hash256) : CoinsDB :=
  let written := mapCoins.entries.foldl
    (fun db entry => if entry.2.dirty then db.writeCoins entry.1 entry.2.coins else db) db
  if hashBlock = 0 then written else { written with bestBlock := hashBlock }

end CoinsDB

namespace CoinsCache

variable (cache : CoinsCache)

def opened : CoinsCache where
  hashBlock := 0
  cacheCoins := ∅

def put (txid : Hash256) (entry : CoinsCacheEntry) : CoinsCache :=
  { cache with cacheCoins := cache.cacheCoins.insert txid entry }

def fetchedEntry (coins : Coins) : CoinsCacheEntry where
  coins := coins
  dirty := false
  fresh := coins.isPruned

/-- One round of the loop of `BatchWrite`; none when the assertion fails. -/
def writeEntry (cacheCoins : CoinsMap) (txid : Hash256) (entry : CoinsCacheEntry) :
    Option CoinsMap :=
  if !entry.dirty then some cacheCoins
  else
    match cacheCoins.lookup txid with
    | none =>
      if entry.coins.isPruned then some cacheCoins
      else if entry.fresh then some (cacheCoins.insert txid ⟨entry.coins, true, true⟩)
      else none
    | some ours =>
      if ours.fresh && entry.coins.isPruned then some (cacheCoins.erase txid)
      else some (cacheCoins.insert txid ⟨entry.coins, true, ours.fresh⟩)

end CoinsCache

/-- Caches, the top one first, over a database. -/
structure CoinsStack where
  caches : List CoinsCache
  db : CoinsDB

namespace CoinsStack

open CoinsCache

/-- `FetchCoins`, and `GetCoins` of the database at the bottom. -/
def fetchCoins (db : CoinsDB) : List CoinsCache → Hash256 → Option Coins × List CoinsCache
  | [], txid => ((db.coins txid).map LiveCoins.coins, [])
  | cache :: below, txid =>
    match cache.cacheCoins.lookup txid with
    | some entry => (some entry.coins, cache :: below)
    | none =>
      match fetchCoins db below txid with
      | (none, below) => (none, cache :: below)
      | (some coins, below) => (some coins, cache.put txid (fetchedEntry coins) :: below)

/-- `GetCoins`; `AccessCoins` gives the same coins. -/
def getCoins (stack : CoinsStack) (txid : Hash256) : Option Coins × CoinsStack :=
  let (found, caches) := fetchCoins stack.db stack.caches txid
  (found, { stack with caches })

def haveCoins (stack : CoinsStack) (txid : Hash256) : Bool × CoinsStack :=
  let (found, stack) := stack.getCoins txid
  match found with
  | some coins => (coins.vout ≠ [], stack)
  | none => (false, stack)

/-- The entry that `ModifyCoins` starts from. -/
def entryToModify (db : CoinsDB) (cache : CoinsCache) (below : List CoinsCache)
    (txid : Hash256) : CoinsCacheEntry × List CoinsCache :=
  match cache.cacheCoins.lookup txid with
  | some entry => (entry, below)
  | none =>
    match fetchCoins db below txid with
    | (none, below) => (⟨.empty, false, true⟩, below)
    | (some coins, below) => (fetchedEntry coins, below)

/-- `ModifyCoins` of the top cache, the edit of the coins, and the end of the
modifier. -/
def modifyCoins (stack : CoinsStack) (txid : Hash256) (edit : Coins → Coins) : CoinsStack :=
  match stack.caches with
  | [] => stack
  | cache :: below =>
    let (entry, below) := entryToModify stack.db cache below txid
    let coins := (edit entry.coins).cleanup
    let cacheCoins :=
      if entry.fresh && coins.isPruned then cache.cacheCoins.erase txid
      else cache.cacheCoins.insert txid ⟨coins, true, entry.fresh⟩
    { stack with caches := { cache with cacheCoins } :: below }

def setBestBlock (stack : CoinsStack) (hashBlock : Hash256) : CoinsStack :=
  match stack.caches with
  | [] => stack
  | cache :: below => { stack with caches := { cache with hashBlock } :: below }

/-- `GetBestBlock`, which caches remember too. -/
def bestBlock (db : CoinsDB) : List CoinsCache → Hash256 × List CoinsCache
  | [] => (db.bestBlock, [])
  | cache :: below =>
    if cache.hashBlock = 0 then
      let (hashBlock, below) := bestBlock db below
      (hashBlock, { cache with hashBlock } :: below)
    else (cache.hashBlock, cache :: below)

def getBestBlock (stack : CoinsStack) : Hash256 × CoinsStack :=
  let (hashBlock, caches) := bestBlock stack.db stack.caches
  (hashBlock, { stack with caches })

/-- `BatchWrite` of the top view; none when the assertion fails. -/
def batchWrite (stack : CoinsStack) (mapCoins : CoinsMap) (hashBlock : Hash256) :
    Option CoinsStack :=
  match stack.caches with
  | [] => some { stack with db := stack.db.batchWrite mapCoins hashBlock }
  | cache :: below =>
    (mapCoins.entries.foldlM (fun cacheCoins entry => writeEntry cacheCoins entry.1 entry.2)
      cache.cacheCoins).map fun cacheCoins =>
        { stack with caches := ⟨hashBlock, cacheCoins⟩ :: below }

/-- `Flush` of the top cache. -/
def flush (stack : CoinsStack) : Option CoinsStack :=
  match stack.caches with
  | [] => some stack
  | cache :: below =>
    (batchWrite ⟨below, stack.db⟩ cache.cacheCoins cache.hashBlock).map fun rest =>
      ⟨{ cache with cacheCoins := ∅ } :: rest.caches, rest.db⟩

/-- An operation on the view at a level, where level `0` is the top. -/
def atLevel (operation : CoinsStack → Option CoinsStack) : ℕ → CoinsStack → Option CoinsStack
  | 0, stack => operation stack
  | level + 1, stack =>
    match stack.caches with
    | [] => operation stack
    | cache :: below =>
      (atLevel operation level ⟨below, stack.db⟩).map fun rest =>
        ⟨cache :: rest.caches, rest.db⟩

/-- `Flush` of all caches, from the top down. -/
def flushAll : ℕ → CoinsStack → Option CoinsStack
  | 0, stack => some stack
  | levels + 1, stack => do
    let rest ← flushAll levels stack
    atLevel flush levels rest

end CoinsStack

end Amberchain.Storage
