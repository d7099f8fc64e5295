import Amberchain.MemPool.Pool

/-!
# Removing transactions from the pool

The indexes of the pool fit to each other, and each removal keeps that.  A recursive
one leaves nothing that spends an output of what it removed.
-/

namespace Amberchain.MemPool

open Transaction

namespace TxMemPool

variable {pool before mid after : TxMemPool} {hash : Hash256} {entry : TxMemPoolEntry}

/-- The transactions are kept under their hashes, and `mapNextTx` marks their inputs. -/
structure Indexed (pool : TxMemPool) : Prop where
  hash : ∀ hash entry, pool.mapTx.lookup hash = some entry → entry.tx.hash = hash
  spent : ∀ prevout inPoint, pool.mapNextTx.lookup prevout = some inPoint →
    (∃ entry, pool.mapTx.lookup inPoint.ptx.hash = some entry ∧ entry.tx = inPoint.ptx) ∧
      inPoint.ptx.vin[inPoint.n]?.map TxIn.prevout = some prevout
  marked : ∀ hash entry, pool.mapTx.lookup hash = some entry → ∀ input ∈ entry.tx.vin,
    ∃ n, pool.mapNextTx.lookup input.prevout = some ⟨entry.tx, n⟩
  size : pool.totalTxSize = (pool.mapTx.entries.map fun entry => entry.2.txSize).sum

theorem indexed_empty : Indexed empty where
  hash := fun hash entry hentry => by cases hentry
  spent := fun prevout inPoint hinPoint => by cases hinPoint
  marked := fun hash entry hentry => by cases hentry
  size := rfl

theorem sum_entries_erase (mapTx : AList fun _ : Hash256 => TxMemPoolEntry)
    (size : TxMemPoolEntry → ℕ) (hentry : mapTx.lookup hash = some entry) :
    (mapTx.entries.map fun entry => size entry.2).sum =
      size entry + ((mapTx.erase hash).entries.map fun entry => size entry.2).sum := by
  have hkey : hash ∈ mapTx.entries.keys := AList.lookup_isSome.mp (by rw [hentry]; rfl)
  obtain ⟨found, front, back, hfront, hentries, herase⟩ := List.exists_of_kerase hkey
  have hfound : found = entry := by
    have hlookup : mapTx.entries.dlookup hash = some entry := hentry
    rw [hentries, List.dlookup_append, List.dlookup_eq_none.mpr hfront, List.dlookup_cons_eq]
      at hlookup
    exact Option.some.inj hlookup
  show _ = _ + ((mapTx.entries.kerase hash).map fun entry => size entry.2).sum
  rw [herase, hentries, hfound, List.map_append, List.map_append, List.sum_append, List.sum_append]
  exact Nat.add_left_comm _ _ _

theorem lookup_foldl_erase (inputs : List TxIn) (prevout : OutPoint) :
    ∀ mapNextTx : AList fun _ : OutPoint => InPoint,
      (inputs.foldl (fun mapNextTx input => mapNextTx.erase input.prevout) mapNextTx).lookup
          prevout =
        if prevout ∈ inputs.map TxIn.prevout then none else mapNextTx.lookup prevout := by
  induction inputs with
  | nil => exact fun mapNextTx => rfl
  | cons input inputs ih =>
    intro mapNextTx
    rw [List.foldl_cons, ih, List.map_cons]
    by_cases hlater : prevout ∈ inputs.map TxIn.prevout
    · rw [if_pos hlater, if_pos (.tail _ hlater)]
    rw [if_neg hlater]
    by_cases hfirst : prevout = input.prevout
    · rw [if_pos (hfirst ▸ (.head _)), hfirst, AList.lookup_erase]
    rw [AList.lookup_erase_ne hfirst, if_neg]
    rw [List.mem_cons]
    exact not_or.mpr ⟨hfirst, hlater⟩

theorem Indexed.eq_of_prevout (hpool : Indexed pool) {other : Hash256} {otherEntry : TxMemPoolEntry}
    (hentry : pool.mapTx.lookup hash = some entry)
    (hother : pool.mapTx.lookup other = some otherEntry) {input otherInput : TxIn}
    (hinput : input ∈ entry.tx.vin) (hotherInput : otherInput ∈ otherEntry.tx.vin)
    (hsame : input.prevout = otherInput.prevout) : hash = other := by
  obtain ⟨n, hn⟩ := hpool.marked hash entry hentry input hinput
  obtain ⟨m, hm⟩ := hpool.marked other otherEntry hother otherInput hotherInput
  rw [hsame, hm] at hn
  have htx : otherEntry.tx = entry.tx := congrArg InPoint.ptx (Option.some.inj hn)
  rw [← hpool.hash hash entry hentry, ← htx, hpool.hash other otherEntry hother]

theorem lookup_removeEntry_of_ne {other : Hash256} (hne : other ≠ hash) :
    (pool.removeEntry hash entry).mapTx.lookup other = pool.mapTx.lookup other :=
  AList.lookup_erase_ne hne

theorem lookup_removeEntry_self : (pool.removeEntry hash entry).mapTx.lookup hash = none :=
  AList.lookup_erase hash pool.mapTx

theorem ne_of_lookup_removeEntry {other : Hash256} {otherEntry : TxMemPoolEntry}
    (hother : (pool.removeEntry hash entry).mapTx.lookup other = some otherEntry) :
    other ≠ hash := by
  rintro rfl
  rw [lookup_removeEntry_self] at hother
  cases hother

theorem Indexed.removeEntry (hpool : Indexed pool) (hentry : pool.mapTx.lookup hash = some entry) :
    Indexed (pool.removeEntry hash entry) where
  hash := fun other otherEntry hother => by
    rw [lookup_removeEntry_of_ne (ne_of_lookup_removeEntry hother)] at hother
    exact hpool.hash other otherEntry hother
  spent := fun prevout inPoint hinPoint => by
    have hlookup := lookup_foldl_erase entry.tx.vin prevout pool.mapNextTx
    change (pool.removeEntry hash entry).mapNextTx.lookup prevout = _ at hlookup
    rw [hinPoint] at hlookup
    by_cases hmem : prevout ∈ entry.tx.vin.map TxIn.prevout
    · rw [if_pos hmem] at hlookup
      cases hlookup
    rw [if_neg hmem] at hlookup
    obtain ⟨⟨found, hfound, htx⟩, hinput⟩ := hpool.spent prevout inPoint hlookup.symm
    have hne : inPoint.ptx.hash ≠ hash := by
      rintro hsame
      rw [hsame, hentry] at hfound
      cases hfound
      obtain ⟨input, hget, hprevout⟩ := Option.map_eq_some_iff.mp hinput
      rw [← htx] at hget
      exact hmem (List.mem_map.mpr ⟨input, List.mem_of_getElem? hget, hprevout⟩)
    exact ⟨⟨found, (lookup_removeEntry_of_ne hne).trans hfound, htx⟩, hinput⟩
  marked := fun other otherEntry hother input hinput => by
    have hne := ne_of_lookup_removeEntry hother
    rw [lookup_removeEntry_of_ne hne] at hother
    obtain ⟨n, hn⟩ := hpool.marked other otherEntry hother input hinput
    refine ⟨n, (lookup_foldl_erase entry.tx.vin input.prevout pool.mapNextTx).trans ?_⟩
    rw [if_neg, hn]
    intro hmem
    obtain ⟨own, hown, hprevout⟩ := List.mem_map.mp hmem
    exact hne (hpool.eq_of_prevout hentry hother hown hinput hprevout).symm
  size := by
    have hsum := sum_entries_erase pool.mapTx TxMemPoolEntry.txSize hentry
    show pool.totalTxSize - entry.txSize =
      ((pool.mapTx.erase hash).entries.map fun entry => entry.2.txSize).sum
    rw [hpool.size, hsum, Nat.add_sub_cancel_left]

def NoSpender (pool : TxMemPool) (tx : Tx) : Prop :=
  ∀ hash entry, pool.mapTx.lookup hash = some entry → ∀ input ∈ entry.tx.vin,
    input.prevout.hash = tx.hash → tx.vout.length ≤ input.prevout.n

/-- All transactions of the pool that spend an output of this one are in the queue. -/
def Waiting (pool : TxMemPool) (tx : Tx) (txToRemove : List Hash256) : Prop :=
  ∀ hash entry, pool.mapTx.lookup hash = some entry → ∀ input ∈ entry.tx.vin,
    input.prevout.hash = tx.hash → input.prevout.n < tx.vout.length → hash ∈ txToRemove

/-- The indexes still fit, on fewer transactions. -/
structure Shrunk (before after : TxMemPool) : Prop where
  indexed : Indexed after
  kept : ∀ hash entry, after.mapTx.lookup hash = some entry →
    before.mapTx.lookup hash = some entry
  hashList : after.hashList = before.hashList
  hashListPos : after.hashListPos = before.hashListPos

/-- What spent an output of a removed transaction is removed too. -/
def Orphanless (before after : TxMemPool) : Prop :=
  ∀ hash entry, before.mapTx.lookup hash = some entry → after.mapTx.lookup hash = none →
    NoSpender after entry.tx

theorem Shrunk.refl (hpool : Indexed pool) : Shrunk pool pool :=
  ⟨hpool, fun _ _ => id, rfl, rfl⟩

theorem Shrunk.trans (hfirst : Shrunk before mid) (hsecond : Shrunk mid after) :
    Shrunk before after where
  indexed := hsecond.indexed
  kept := fun hash entry hentry => hfirst.kept hash entry (hsecond.kept hash entry hentry)
  hashList := hsecond.hashList.trans hfirst.hashList
  hashListPos := hsecond.hashListPos.trans hfirst.hashListPos

theorem Shrunk.lookup_eq_none (hshrunk : Shrunk before after)
    (hnone : before.mapTx.lookup hash = none) : after.mapTx.lookup hash = none := by
  cases hafter : after.mapTx.lookup hash with
  | none => rfl
  | some entry =>
    rw [hshrunk.kept hash entry hafter] at hnone
    cases hnone

theorem NoSpender.shrunk {tx : Tx} (hnone : NoSpender before tx) (hshrunk : Shrunk before after) :
    NoSpender after tx :=
  fun hash entry hentry => hnone hash entry (hshrunk.kept hash entry hentry)

/-- Some transactions went, with all that depended on them. -/
structure Cut (before after : TxMemPool) : Prop extends Shrunk before after where
  orphanless : Orphanless before after

theorem Cut.refl (hpool : Indexed pool) : Cut pool pool where
  toShrunk := .refl hpool
  orphanless := fun hash entry hentry hnone => by
    rw [hentry] at hnone
    cases hnone

theorem Cut.trans (hfirst : Cut before mid) (hsecond : Cut mid after) : Cut before after where
  toShrunk := hfirst.toShrunk.trans hsecond.toShrunk
  orphanless := fun hash entry hentry hnone => by
    cases hmid : mid.mapTx.lookup hash with
    | none => exact (hfirst.orphanless hash entry hentry hmid).shrunk hsecond.toShrunk
    | some kept =>
      have hkept := hfirst.kept hash kept hmid
      rw [hentry] at hkept
      cases hkept
      exact hsecond.orphanless hash entry hmid hnone

theorem shrunk_removeEntry (hpool : Indexed pool) (hentry : pool.mapTx.lookup hash = some entry) :
    Shrunk pool (pool.removeEntry hash entry) where
  indexed := hpool.removeEntry hentry
  kept := fun other otherEntry hother => by
    rwa [lookup_removeEntry_of_ne (ne_of_lookup_removeEntry hother)] at hother
  hashList := rfl
  hashListPos := rfl

/-- The transactions that spend an output are found through `mapNextTx`. -/
theorem Indexed.mem_children (hpool : Indexed pool) (hentry : pool.mapTx.lookup hash = some entry)
    {input : TxIn} (hinput : input ∈ entry.tx.vin) {outs : ℕ} (hn : input.prevout.n < outs) :
    hash ∈ pool.children input.prevout.hash outs := by
  obtain ⟨n, hmarked⟩ := hpool.marked hash entry hentry input hinput
  refine List.mem_filterMap.mpr ⟨input.prevout.n, List.mem_range.mpr hn, ?_⟩
  rw [hmarked]
  exact congrArg some (hpool.hash hash entry hentry)

theorem rounds_removeEntry (hentry : pool.mapTx.lookup hash = some entry)
    (txToRemove : List Hash256) {orphans : List Hash256}
    (horphans : orphans.length ≤ entry.tx.vout.length) :
    (pool.removeEntry hash entry).rounds (txToRemove ++ orphans) <
      pool.rounds (hash :: txToRemove) := by
  have hsum := sum_entries_erase pool.mapTx (fun entry => entry.tx.vout.length) hentry
  unfold rounds
  rw [List.length_append, List.length_cons]
  show _ + ((pool.mapTx.erase hash).entries.map fun entry => entry.2.tx.vout.length).sum < _
  omega

theorem length_children_le (pool : TxMemPool) (hash : Hash256) (outs : ℕ) :
    (pool.children hash outs).length ≤ outs := by
  have hlength := List.length_filterMap_le
    (fun i => (pool.mapNextTx.lookup ⟨hash, i⟩).map fun inPoint => inPoint.ptx.hash)
    (List.range outs)
  rwa [List.length_range] at hlength

/-- What the loop of `remove` leaves. -/
structure LoopResult (recursive : Bool) (txToRemove : List Hash256) (before after : TxMemPool) :
    Prop where
  shrunk : Shrunk before after
  gone : ∀ hash ∈ txToRemove, after.mapTx.lookup hash = none
  waited : recursive = true → ∀ tx, Waiting before tx txToRemove → NoSpender after tx
  orphanless : recursive = true → Orphanless before after

theorem LoopResult.nil (hpool : Indexed pool) (recursive : Bool) :
    LoopResult recursive [] pool pool where
  shrunk := .refl hpool
  gone := fun _ hmem => absurd hmem List.not_mem_nil
  waited := fun _ _ hwaiting hash entry hentry input hinput hhash =>
    Nat.not_lt.mp fun hn => List.not_mem_nil (hwaiting hash entry hentry input hinput hhash hn)
  orphanless := fun _ => (Cut.refl hpool).orphanless

/-- The loop ends, and every transaction that it removed has no spender left: the spenders
are in the queue from then on. -/
theorem removeLoop_spec (recursive : Bool) :
    ∀ (rounds : ℕ) (txToRemove : List Hash256) (removed : List Tx) (pool : TxMemPool),
      Indexed pool → pool.rounds txToRemove ≤ rounds →
      ∃ after removed', removeLoop recursive rounds txToRemove removed pool =
          some (after, removed') ∧ LoopResult recursive txToRemove pool after := by
  intro rounds
  induction rounds with
  | zero =>
    intro txToRemove removed pool hpool hrounds
    cases txToRemove with
    | nil => exact ⟨pool, removed, rfl, .nil hpool recursive⟩
    | cons hash txToRemove =>
      unfold TxMemPool.rounds at hrounds
      rw [List.length_cons] at hrounds
      omega
  | succ rounds ih =>
    intro txToRemove removed pool hpool hrounds
    cases txToRemove with
    | nil => exact ⟨pool, removed, rfl, .nil hpool recursive⟩
    | cons hash txToRemove =>
      unfold removeLoop
      cases hentry : pool.mapTx.lookup hash with
      | none =>
        have hless : pool.rounds txToRemove ≤ rounds := by
          unfold TxMemPool.rounds at hrounds ⊢
          rw [List.length_cons] at hrounds
          omega
        obtain ⟨after, removed', hloop, hresult⟩ := ih txToRemove removed pool hpool hless
        refine ⟨after, removed', hloop, hresult.shrunk, fun other hother => ?_,
          fun hrec tx hwaiting => ?_, hresult.orphanless⟩
        · cases List.mem_cons.mp hother with
          | inl heq =>
            rw [heq]
            exact hresult.shrunk.lookup_eq_none hentry
          | inr htail => exact hresult.gone other htail
        refine hresult.waited hrec tx fun other entry hother input hinput hhash hn => ?_
        cases List.mem_cons.mp (hwaiting other entry hother input hinput hhash hn) with
        | inl heq =>
          rw [heq, hentry] at hother
          cases hother
        | inr htail => exact htail
      | some entry =>
        dsimp only
        generalize horphans : (if recursive = true then pool.children hash entry.tx.vout.length
          else []) = orphans
        have hlength : orphans.length ≤ entry.tx.vout.length := by
          rw [← horphans]
          split
          · exact length_children_le pool hash _
          · exact Nat.zero_le _
        have hfirst := shrunk_removeEntry hpool hentry
        obtain ⟨after, removed', hloop, hresult⟩ := ih (txToRemove ++ orphans)
          (removed ++ [entry.tx]) (pool.removeEntry hash entry) hfirst.indexed
          (Nat.le_of_lt_succ (Nat.lt_of_lt_of_le (rounds_removeEntry hentry txToRemove hlength)
            hrounds))
        refine ⟨after, removed', hloop, hfirst.trans hresult.shrunk, fun other hother => ?_,
          fun hrec tx hwaiting => ?_, fun hrec other otherEntry hother hnone => ?_⟩
        · cases List.mem_cons.mp hother with
          | inl heq =>
            rw [heq]
            exact hresult.shrunk.lookup_eq_none lookup_removeEntry_self
          | inr htail => exact hresult.gone other (List.mem_append_left _ htail)
        · refine hresult.waited hrec tx fun other otherEntry hother input hinput hhash hn => ?_
          refine List.mem_append_left _ ?_
          cases List.mem_cons.mp
            (hwaiting other otherEntry (hfirst.kept _ _ hother) input hinput hhash hn) with
          | inl heq => exact absurd heq (ne_of_lookup_removeEntry hother)
          | inr htail => exact htail
        by_cases hsame : other = hash
        · -- the removed transaction: its spenders were put into the queue
          rw [hsame, hentry] at hother
          cases hother
          refine hresult.waited hrec entry.tx fun child childEntry hchild input hinput hhash hn => ?_
          refine List.mem_append_right _ ?_
          rw [← horphans, if_pos hrec, ← hpool.hash hash entry hentry, ← hhash]
          exact hpool.mem_children (hfirst.kept _ _ hchild) hinput hn
        exact hresult.orphanless hrec other otherEntry
          ((lookup_removeEntry_of_ne hsame).trans hother) hnone

/-- What `remove` leaves. -/
structure Removed (recursive : Bool) (origTx : Tx) (before after : TxMemPool) : Prop where
  shrunk : Shrunk before after
  gone : after.mapTx.lookup origTx.hash = none
  cut : recursive = true → Cut before after
  orphans : recursive = true → before.exists_ origTx.hash = false → NoSpender after origTx

theorem remove_spec (hpool : Indexed pool) (origTx : Tx) (removed : List Tx) (recursive : Bool) :
    ∃ after removed', pool.remove origTx removed recursive = some (after, removed') ∧
      Removed recursive origTx pool after := by
  obtain ⟨after, removed', hloop, hresult⟩ :=
    removeLoop_spec recursive _ (pool.startRemove origTx recursive) removed pool hpool le_rfl
  refine ⟨after, removed', hloop, hresult.shrunk, hresult.gone _ (.head _),
    fun hrec => ⟨hresult.shrunk, hresult.orphanless hrec⟩, fun hrec hnot => ?_⟩
  refine hresult.waited hrec origTx fun child entry hchild input hinput hhash hn => ?_
  unfold startRemove
  rw [hrec, hnot, ← hhash]
  exact .tail _ (hpool.mem_children hchild hinput hn)

theorem removeConflicts_spec (hpool : Indexed pool) (tx : Tx) (removed : List Tx) :
    ∃ after removed', pool.removeConflicts tx removed = some (after, removed') ∧
      Cut pool after := by
  unfold removeConflicts
  generalize tx.vin = inputs
  induction inputs generalizing pool removed with
  | nil => exact ⟨pool, removed, rfl, .refl hpool⟩
  | cons input inputs ih =>
    have hstep : ∃ mid removed', removeConflict tx (pool, removed) input = some (mid, removed') ∧
        Cut pool mid := by
      unfold removeConflict
      split
      · exact ⟨pool, removed, rfl, .refl hpool⟩
      split
      · obtain ⟨mid, removed', hremove, hmid⟩ := remove_spec hpool _ removed true
        exact ⟨mid, removed', hremove, hmid.cut rfl⟩
      · exact ⟨pool, removed, rfl, .refl hpool⟩
    obtain ⟨mid, removed', hmid, hcut⟩ := hstep
    obtain ⟨after, removed'', hafter, hrest⟩ := ih hcut.indexed removed'
    refine ⟨after, removed'', ?_, hcut.trans hrest⟩
    rw [List.foldlM_cons, hmid]
    exact hafter

theorem removeForBlock_spec (hpool : Indexed pool) (vtx : List Tx) (conflicts : List Tx) :
    ∃ after conflicts', pool.removeForBlock vtx conflicts = some (after, conflicts') ∧
      Shrunk pool after := by
  unfold removeForBlock
  induction vtx generalizing pool conflicts with
  | nil => exact ⟨pool, conflicts, rfl, .refl hpool⟩
  | cons tx vtx ih =>
    obtain ⟨mined, _, hremove, hmined⟩ := remove_spec hpool tx [] false
    obtain ⟨mid, conflicts', hconflicts, hmid⟩ :=
      removeConflicts_spec hmined.shrunk.indexed tx conflicts
    obtain ⟨after, conflicts'', hafter, hrest⟩ := ih hmid.indexed conflicts'
    refine ⟨after, conflicts'', ?_, (hmined.shrunk.trans hmid.toShrunk).trans hrest⟩
    have hstep : removeMined (pool, conflicts) tx = some (mid, conflicts') := by
      unfold removeMined
      rw [hremove]
      exact hconflicts
    rw [List.foldlM_cons, hstep]
    exact hafter

theorem removeCoinbaseSpends_spec (hpool : Indexed pool)
    (coins : Hash256 → Option Storage.Coins) (memPoolHeight maturity : ℕ) :
    ∃ after, pool.removeCoinbaseSpends coins memPoolHeight maturity = some after ∧
      Cut pool after := by
  unfold removeCoinbaseSpends
  generalize pool.immatureSpends coins memPoolHeight maturity = transactionsToRemove
  induction transactionsToRemove generalizing pool with
  | nil => exact ⟨pool, rfl, .refl hpool⟩
  | cons tx transactionsToRemove ih =>
    obtain ⟨mid, _, hremove, hmid⟩ := remove_spec hpool tx [] true
    obtain ⟨after, hafter, hrest⟩ := ih (hmid.cut rfl).indexed
    refine ⟨after, ?_, (hmid.cut rfl).trans hrest⟩
    rw [List.foldlM_cons, hremove]
    exact hafter

end TxMemPool

end Amberchain.MemPool
