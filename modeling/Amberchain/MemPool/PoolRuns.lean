import Amberchain.MemPool.Removal

/-!
# The hash list of the pool

Under the rows of transactions that are not in the pool any more, the hash list has one
row for each transaction, parents first.  New transactions keep that as long as their
row is free and comes after their parents and before their children.
-/

namespace Amberchain.MemPool

open Transaction

namespace TxMemPool

variable {pool after : TxMemPool} {hash : Hash256} {entry : TxMemPoolEntry}

theorem exists_of_lookup (hentry : pool.mapTx.lookup hash = some entry) :
    pool.exists_ hash = true := by
  unfold exists_
  rw [hentry]
  rfl

theorem lookup_of_exists (hexists : pool.exists_ hash = true) :
    ∃ entry, pool.mapTx.lookup hash = some entry :=
  Option.isSome_iff_exists.mp hexists

def SpendsFrom (pool : TxMemPool) (child parent : Hash256) : Prop :=
  ∃ entry, pool.mapTx.lookup child = some entry ∧
    ∃ input ∈ entry.tx.vin, input.prevout.hash = parent

def liveRows (pool : TxMemPool) : List Hash256 :=
  pool.hashList.filter pool.exists_

structure Listed (pool : TxMemPool) : Prop where
  listed : ∀ hash, pool.exists_ hash = true → hash ∈ pool.hashList
  once : pool.liveRows.Nodup
  ordered : pool.liveRows.Pairwise fun first later => ¬ pool.SpendsFrom first later
  zero : pool.exists_ 0 = false

theorem listed_empty : Listed empty where
  listed := fun hash hexists => by cases hexists
  once := List.nodup_nil
  ordered := List.Pairwise.nil
  zero := rfl

theorem mem_liveRows (hlisted : Listed pool) : hash ∈ pool.liveRows ↔ pool.exists_ hash = true := by
  unfold liveRows
  rw [List.mem_filter]
  exact ⟨fun hmem => hmem.2, fun hexists => ⟨hlisted.listed hash hexists, hexists⟩⟩

theorem Shrunk.exists_ (hshrunk : Shrunk pool after) (hexists : after.exists_ hash = true) :
    pool.exists_ hash = true := by
  obtain ⟨entry, hentry⟩ := lookup_of_exists hexists
  exact exists_of_lookup (hshrunk.kept hash entry hentry)

theorem Listed.shrunk (hlisted : Listed pool) (hshrunk : Shrunk pool after) : Listed after := by
  have hrows : after.liveRows = pool.liveRows.filter after.exists_ := by
    unfold liveRows
    rw [hshrunk.hashList, List.filter_filter]
    refine List.filter_congr fun hash _ => ?_
    cases hexists : after.exists_ hash with
    | false => rfl
    | true => rw [hshrunk.exists_ hexists, Bool.and_true]
  have hsub : after.liveRows.Sublist pool.liveRows := by
    rw [hrows]
    exact List.filter_sublist
  refine ⟨fun hash hexists => ?_, hlisted.once.sublist hsub, ?_, ?_⟩
  · rw [hshrunk.hashList]
    exact hlisted.listed hash (hshrunk.exists_ hexists)
  · refine (hlisted.ordered.sublist hsub).imp fun hnot => ?_
    rintro ⟨entry, hentry, hinput⟩
    exact hnot ⟨entry, hshrunk.kept _ entry hentry, hinput⟩
  cases hexists : after.exists_ 0 with
  | false => rfl
  | true =>
    have hzero := hlisted.zero
    rw [hshrunk.exists_ hexists] at hzero
    cases hzero

theorem liveRows_defragmentHashList (pool : TxMemPool) :
    pool.defragmentHashList.liveRows = pool.defragmentHashList.hashList := by
  show (pool.hashList.filter pool.exists_).filter pool.exists_ = _
  rw [List.filter_filter]
  exact List.filter_congr fun hash _ => Bool.and_self _

theorem Listed.defragmentHashList (hlisted : Listed pool) : Listed pool.defragmentHashList where
  listed := fun _ hexists => (mem_liveRows hlisted).mpr hexists
  once := by
    rw [liveRows_defragmentHashList]
    exact hlisted.once
  ordered := by
    rw [liveRows_defragmentHashList]
    exact hlisted.ordered
  zero := hlisted.zero

theorem Listed.shiftHashList (hlisted : Listed pool) (rows : ℕ) :
    Listed (pool.shiftHashList rows) := by
  have hrows : (pool.shiftHashList rows).liveRows = pool.liveRows := by
    have hzeros : (List.replicate rows (0 : Hash256)).filter pool.exists_ = [] := by
      rw [List.filter_replicate_of_neg]
      rw [hlisted.zero]
      exact Bool.false_ne_true
    show (List.replicate rows 0 ++ pool.hashList).filter pool.exists_ = _
    rw [List.filter_append, hzeros]
    rfl
  refine ⟨fun hash hexists => List.mem_append_right _ (hlisted.listed hash hexists), ?_, ?_,
    hlisted.zero⟩
  · rw [hrows]
    exact hlisted.once
  rw [hrows]
  exact hlisted.ordered

/-- What callers see to when they add a transaction: its inputs are not spent in the pool,
its row is free, no row of it was left behind, and it comes after its parents and before
its children. -/
structure Addable (pool : TxMemPool) (hash : Hash256) (entry : TxMemPoolEntry) : Prop where
  hash_eq : entry.tx.hash = hash
  hash_ne_zero : hash ≠ 0
  unspent : ∀ input ∈ entry.tx.vin, pool.mapNextTx.lookup input.prevout = none
  new : hash ∉ pool.hashList
  free : ∀ row ∈ pool.hashList[pool.hashListPos]?, pool.exists_ row = false
  parents : ∀ parent ∈ pool.hashList.drop (pool.hashListPos + 1), pool.exists_ parent = true →
    ∀ input ∈ entry.tx.vin, input.prevout.hash ≠ parent
  children : ∀ child ∈ pool.hashList.take pool.hashListPos, ¬ pool.SpendsFrom child hash

theorem hashList_addUnchecked (pool : TxMemPool) (hash : Hash256) (entry : TxMemPoolEntry) :
    (pool.addUnchecked hash entry).hashList = pool.hashList.take pool.hashListPos ++
        hash :: pool.hashList.drop (pool.hashListPos + 1) := by
  unfold addUnchecked
  split
  · rename_i hpos
    exact List.set_eq_take_append_cons_drop.trans (if_pos hpos)
  rename_i hpos
  have hlength := Nat.not_lt.mp hpos
  rw [List.take_of_length_le hlength, List.drop_eq_nil_of_le (Nat.le_succ_of_le hlength)]

theorem lookup_addUnchecked_of_ne {other : Hash256} (hne : other ≠ hash) :
    (pool.addUnchecked hash entry).mapTx.lookup other = pool.mapTx.lookup other :=
  AList.lookup_insert_ne hne

theorem lookup_addUnchecked_self : (pool.addUnchecked hash entry).mapTx.lookup hash = some entry :=
  AList.lookup_insert pool.mapTx

theorem exists_addUnchecked_of_ne {other : Hash256} (hne : other ≠ hash) :
    (pool.addUnchecked hash entry).exists_ other = pool.exists_ other := by
  unfold exists_
  rw [lookup_addUnchecked_of_ne hne]

theorem Listed.lookup_eq_none (hlisted : Listed pool) (hnew : hash ∉ pool.hashList) :
    pool.mapTx.lookup hash = none := by
  cases hentry : pool.mapTx.lookup hash with
  | none => rfl
  | some entry => exact absurd (hlisted.listed hash (exists_of_lookup hentry)) hnew

/-- The row that is written was not one of a transaction in the pool. -/
theorem liveRows_eq (hadd : Addable pool hash entry) :
    pool.liveRows = (pool.hashList.take pool.hashListPos).filter pool.exists_ ++
      (pool.hashList.drop (pool.hashListPos + 1)).filter pool.exists_ := by
  have hfree := hadd.free
  unfold liveRows
  conv_lhs => rw [← List.take_append_drop pool.hashListPos pool.hashList]
  rw [List.filter_append]
  congr 1
  cases hrow : pool.hashList[pool.hashListPos]? with
  | none =>
    have hlength := List.getElem?_eq_none_iff.mp hrow
    rw [List.drop_eq_nil_of_le hlength, List.drop_eq_nil_of_le (Nat.le_succ_of_le hlength)]
  | some row =>
    obtain ⟨hpos, hget⟩ := List.getElem?_eq_some_iff.mp hrow
    rw [List.drop_eq_getElem_cons hpos, hget, List.filter_cons_of_neg]
    rw [hfree row hrow]
    exact Bool.false_ne_true

theorem liveRows_addUnchecked (hadd : Addable pool hash entry) :
    (pool.addUnchecked hash entry).liveRows =
      (pool.hashList.take pool.hashListPos).filter pool.exists_ ++
        hash :: (pool.hashList.drop (pool.hashListPos + 1)).filter pool.exists_ := by
  have hsame : ∀ rows : List Hash256, (∀ row ∈ rows, row ∈ pool.hashList) →
      rows.filter (pool.addUnchecked hash entry).exists_ = rows.filter pool.exists_ :=
    fun rows hrows => List.filter_congr fun row hrow =>
      exists_addUnchecked_of_ne fun heq => hadd.new (heq ▸ hrows row hrow)
  unfold liveRows
  rw [hashList_addUnchecked, List.filter_append, List.filter_cons_of_pos
      (exists_of_lookup lookup_addUnchecked_self),
    hsame _ fun row hrow => List.mem_of_mem_take hrow,
    hsame _ fun row hrow => List.mem_of_mem_drop hrow]

theorem Listed.addUnchecked (hlisted : Listed pool) (hadd : Addable pool hash entry) :
    Listed (pool.addUnchecked hash entry) := by
  have honce := hlisted.once
  have hordered := hlisted.ordered
  rw [liveRows_eq hadd] at honce hordered
  have hkeep : ∀ {first later : Hash256}, first ≠ hash → ¬ pool.SpendsFrom first later →
      ¬ (pool.addUnchecked hash entry).SpendsFrom first later := by
    rintro first later hne hnot ⟨other, hother, hinput⟩
    rw [lookup_addUnchecked_of_ne hne] at hother
    exact hnot ⟨other, hother, hinput⟩
  have hnotTake : ∀ row ∈ (pool.hashList.take pool.hashListPos).filter pool.exists_,
      row ≠ hash := fun row hrow heq =>
    hadd.new (heq ▸ List.mem_of_mem_take (List.mem_of_mem_filter hrow))
  have hnotDrop : ∀ row ∈ (pool.hashList.drop (pool.hashListPos + 1)).filter pool.exists_,
      row ≠ hash := fun row hrow heq =>
    hadd.new (heq ▸ List.mem_of_mem_drop (List.mem_of_mem_filter hrow))
  refine ⟨fun other hexists => ?_, ?_, ?_, ?_⟩
  · by_cases hsame : other = hash
    · rw [hsame, hashList_addUnchecked]
      exact List.mem_append_right _ (.head _)
    rw [exists_addUnchecked_of_ne hsame] at hexists
    have hmem := (mem_liveRows hlisted).mpr hexists
    rw [liveRows_eq hadd] at hmem
    rw [hashList_addUnchecked]
    cases List.mem_append.mp hmem with
    | inl htake => exact List.mem_append_left _ (List.mem_of_mem_filter htake)
    | inr hdrop =>
      exact List.mem_append_right _ (.tail _ (List.mem_of_mem_filter hdrop))
  · rw [liveRows_addUnchecked hadd]
    refine List.nodup_middle.mpr (List.nodup_cons.mpr ⟨fun hmem => ?_, honce⟩)
    cases List.mem_append.mp hmem with
    | inl htake => exact hnotTake hash htake rfl
    | inr hdrop => exact hnotDrop hash hdrop rfl
  · rw [liveRows_addUnchecked hadd]
    obtain ⟨hfront, hback, hcross⟩ := List.pairwise_append.mp hordered
    have hfrontNew := hfront.imp_of_mem fun hfirst _ hnot => hkeep (hnotTake _ hfirst) hnot
    have hbackNew := hback.imp_of_mem fun hfirst _ hnot => hkeep (hnotDrop _ hfirst) hnot
    refine List.pairwise_append.mpr ⟨hfrontNew, List.pairwise_cons.mpr ⟨?_, hbackNew⟩, ?_⟩
    · -- the parents are not behind the new row
      rintro parent hparent ⟨own, hown, input, hinput, hhash⟩
      rw [lookup_addUnchecked_self] at hown
      cases hown
      exact hadd.parents parent (List.mem_of_mem_filter hparent) (List.of_mem_filter hparent)
        input hinput hhash
    intro first hfirst later hlater
    cases List.mem_cons.mp hlater with
    | inl heq =>
      -- the children are not in front of it
      rw [heq]
      exact hkeep (hnotTake first hfirst) (hadd.children first (List.mem_of_mem_filter hfirst))
    | inr hmem => exact hkeep (hnotTake first hfirst) (hcross first hfirst later hmem)
  rw [exists_addUnchecked_of_ne hadd.hash_ne_zero.symm]
  exact hlisted.zero

end TxMemPool

end Amberchain.MemPool

/-!
# Runs of the memory pool

Whatever is done to the pool, its indexes agree, what depends on a removed transaction
goes with it, and the defragmented hash list has the pool in an order in which parents
come first.
-/

namespace Amberchain.MemPool

open Transaction

namespace TxMemPool

variable {pool after : TxMemPool} {hash : Hash256} {entry : TxMemPoolEntry}

theorem lookup_foldl_insert_of_notMem (tx : Tx) (prevout : OutPoint) :
    ∀ (inputs : List (TxIn × ℕ)) (mapNextTx : AList fun _ : OutPoint => InPoint),
      (∀ input ∈ inputs, input.1.prevout ≠ prevout) →
      (inputs.foldl (fun mapNextTx input => mapNextTx.insert input.1.prevout ⟨tx, input.2⟩)
        mapNextTx).lookup prevout = mapNextTx.lookup prevout := by
  intro inputs
  induction inputs with
  | nil => exact fun mapNextTx _ => rfl
  | cons input inputs ih =>
    intro mapNextTx hnot
    rw [List.foldl_cons, ih _ fun other hother => hnot other (.tail _ hother)]
    exact AList.lookup_insert_ne (hnot input (.head _)).symm

/-- An input is marked with one of its places. -/
theorem lookup_foldl_insert_of_mem (tx : Tx) (prevout : OutPoint) :
    ∀ (inputs : List (TxIn × ℕ)) (mapNextTx : AList fun _ : OutPoint => InPoint),
      (∃ input ∈ inputs, input.1.prevout = prevout) → ∃ input ∈ inputs, input.1.prevout = prevout ∧
        (inputs.foldl (fun mapNextTx input => mapNextTx.insert input.1.prevout ⟨tx, input.2⟩)
          mapNextTx).lookup prevout = some ⟨tx, input.2⟩ := by
  intro inputs
  induction inputs with
  | nil => exact fun mapNextTx hmem => absurd hmem (by simp)
  | cons first inputs ih =>
    intro mapNextTx hmem
    rw [List.foldl_cons]
    by_cases hlater : ∃ input ∈ inputs, input.1.prevout = prevout
    · obtain ⟨input, hinput, hprevout, hlookup⟩ := ih _ hlater
      exact ⟨input, List.mem_cons_of_mem _ hinput, hprevout, hlookup⟩
    obtain ⟨input, hinput, hprevout⟩ := hmem
    cases List.mem_cons.mp hinput with
    | inr htail => exact absurd ⟨input, htail, hprevout⟩ hlater
    | inl heq =>
      subst heq
      refine ⟨input, (.head _), hprevout, ?_⟩
      rw [lookup_foldl_insert_of_notMem tx prevout inputs _ fun other hother hsame =>
        hlater ⟨other, hother, hsame⟩, ← hprevout]
      exact AList.lookup_insert mapNextTx

theorem lookup_mapNextTx_of_marked {input : TxIn} (hinput : input ∈ entry.tx.vin) :
    ∃ n, (pool.addUnchecked hash entry).mapNextTx.lookup input.prevout = some ⟨entry.tx, n⟩ ∧
      entry.tx.vin[n]?.map TxIn.prevout = some input.prevout := by
  obtain ⟨i, hi⟩ := List.mem_iff_getElem?.mp hinput
  obtain ⟨marked, hmarked, hprevout, hlookup⟩ := lookup_foldl_insert_of_mem entry.tx input.prevout
    entry.tx.vin.zipIdx pool.mapNextTx
    ⟨(input, i), List.mem_zipIdx_iff_getElem?.mpr hi, rfl⟩
  have hget : entry.tx.vin[marked.2]? = some marked.1 := List.mem_zipIdx_iff_getElem?.mp hmarked
  exact ⟨marked.2, hlookup, by rw [hget, Option.map_some, hprevout]⟩

theorem lookup_mapNextTx_of_notMem {prevout : OutPoint}
    (hnot : ∀ input ∈ entry.tx.vin, input.prevout ≠ prevout) :
    (pool.addUnchecked hash entry).mapNextTx.lookup prevout = pool.mapNextTx.lookup prevout :=
  lookup_foldl_insert_of_notMem entry.tx prevout _ _ fun input hinput =>
    hnot input.1 (List.mem_of_getElem? (List.mem_zipIdx_iff_getElem?.mp hinput))

theorem Indexed.addUnchecked (hpool : Indexed pool) (hnone : pool.mapTx.lookup hash = none)
    (hadd : Addable pool hash entry) : Indexed (pool.addUnchecked hash entry) where
  hash := fun other otherEntry hother => by
    by_cases hsame : other = hash
    · rw [hsame, lookup_addUnchecked_self] at hother
      cases hother
      rw [hadd.hash_eq, hsame]
    rw [lookup_addUnchecked_of_ne hsame] at hother
    exact hpool.hash other otherEntry hother
  spent := fun prevout inPoint hinPoint => by
    by_cases hown : ∃ input ∈ entry.tx.vin, input.prevout = prevout
    · obtain ⟨input, hinput, rfl⟩ := hown
      obtain ⟨n, hlookup, hget⟩ := lookup_mapNextTx_of_marked hinput
      rw [hlookup] at hinPoint
      cases hinPoint
      refine ⟨⟨entry, ?_, rfl⟩, hget⟩
      show (pool.addUnchecked hash entry).mapTx.lookup entry.tx.hash = some entry
      rw [hadd.hash_eq]
      exact lookup_addUnchecked_self
    rw [lookup_mapNextTx_of_notMem fun input hinput heq => hown ⟨input, hinput, heq⟩] at hinPoint
    obtain ⟨⟨found, hfound, htx⟩, hget⟩ := hpool.spent prevout inPoint hinPoint
    have hne : inPoint.ptx.hash ≠ hash := by
      rintro hsame
      rw [hsame, hnone] at hfound
      cases hfound
    exact ⟨⟨found, (lookup_addUnchecked_of_ne hne).trans hfound, htx⟩, hget⟩
  marked := fun other otherEntry hother input hinput => by
    by_cases hsame : other = hash
    · rw [hsame, lookup_addUnchecked_self] at hother
      cases hother
      obtain ⟨n, hlookup, _⟩ := lookup_mapNextTx_of_marked hinput
      exact ⟨n, hlookup⟩
    rw [lookup_addUnchecked_of_ne hsame] at hother
    obtain ⟨n, hmarked⟩ := hpool.marked other otherEntry hother input hinput
    refine ⟨n, (lookup_mapNextTx_of_notMem fun own hown heq => ?_).trans hmarked⟩
    have hunspent := hadd.unspent own hown
    rw [heq, hmarked] at hunspent
    cases hunspent
  size := by
    show pool.totalTxSize + entry.txSize =
      ((pool.mapTx.insert hash entry).entries.map fun entry => entry.2.txSize).sum
    rw [AList.entries_insert_of_notMem (AList.lookup_eq_none.mp hnone), List.map_cons,
      List.sum_cons, hpool.size, Nat.add_comm]

/-- What callers see to. -/
def Allowed (pool : TxMemPool) : PoolOp → Prop
  | .addUnchecked hash entry => Addable pool hash entry
  | _ => True

def Disciplined : TxMemPool → List PoolOp → Prop
  | _, [] => True
  | pool, op :: ops => pool.Allowed op ∧ ∀ next, pool.perform op = some next → Disciplined next ops

structure Sound (pool : TxMemPool) : Prop where
  indexed : Indexed pool
  listed : Listed pool

theorem Sound.shrunk (hpool : Sound pool) (hshrunk : Shrunk pool after) : Sound after :=
  ⟨hshrunk.indexed, hpool.listed.shrunk hshrunk⟩

theorem Sound.perform (hpool : Sound pool) (op : PoolOp) (hallowed : pool.Allowed op) :
    ∃ next, pool.perform op = some next ∧ Sound next := by
  cases op with
  | addUnchecked hash entry =>
    have hnone := hpool.listed.lookup_eq_none hallowed.new
    exact ⟨_, rfl, hpool.indexed.addUnchecked hnone hallowed, hpool.listed.addUnchecked hallowed⟩
  | remove origTx recursive =>
    obtain ⟨next, _, hremove, hnext⟩ := remove_spec hpool.indexed origTx [] recursive
    exact ⟨next, congrArg (Option.map Prod.fst) hremove, hpool.shrunk hnext.shrunk⟩
  | removeConflicts tx =>
    obtain ⟨next, _, hremove, hnext⟩ := removeConflicts_spec hpool.indexed tx []
    exact ⟨next, congrArg (Option.map Prod.fst) hremove, hpool.shrunk hnext.toShrunk⟩
  | removeForBlock vtx =>
    obtain ⟨next, _, hremove, hnext⟩ := removeForBlock_spec hpool.indexed vtx []
    exact ⟨next, congrArg (Option.map Prod.fst) hremove, hpool.shrunk hnext⟩
  | removeCoinbaseSpends coins memPoolHeight maturity =>
    obtain ⟨next, hremove, hnext⟩ :=
      removeCoinbaseSpends_spec hpool.indexed coins memPoolHeight maturity
    exact ⟨next, hremove, hpool.shrunk hnext.toShrunk⟩
  | defragmentHashList =>
    exact ⟨_, rfl, ⟨hpool.indexed.hash, hpool.indexed.spent, hpool.indexed.marked,
      hpool.indexed.size⟩, hpool.listed.defragmentHashList⟩
  | shiftHashList rows =>
    exact ⟨_, rfl, ⟨hpool.indexed.hash, hpool.indexed.spent, hpool.indexed.marked,
      hpool.indexed.size⟩, hpool.listed.shiftHashList rows⟩

theorem Sound.run (hpool : Sound pool) (ops : List PoolOp) (hops : Disciplined pool ops) :
    ∃ final, pool.run ops = some final ∧ Sound final := by
  induction ops generalizing pool with
  | nil => exact ⟨pool, rfl, hpool⟩
  | cons op ops ih =>
    obtain ⟨next, hnext, hsound⟩ := hpool.perform op hops.1
    obtain ⟨final, hfinal, hall⟩ := ih hsound (hops.2 next hnext)
    refine ⟨final, ?_, hall⟩
    unfold TxMemPool.run
    rw [List.foldlM_cons, hnext]
    exact hfinal

structure Structured (pool : TxMemPool) : Prop where
  mapNextTx : ∀ prevout, (∃ inPoint, pool.mapNextTx.lookup prevout = some inPoint) ↔
    ∃ hash entry, pool.mapTx.lookup hash = some entry ∧
      ∃ input ∈ entry.tx.vin, input.prevout = prevout
  totalTxSize : pool.totalTxSize = (pool.mapTx.entries.map fun entry => entry.2.txSize).sum
  remove : ∀ origTx, ∃ after removed, pool.remove origTx [] true = some (after, removed) ∧
    after.exists_ origTx.hash = false ∧ Orphanless pool after ∧
    (pool.exists_ origTx.hash = false → NoSpender after origTx)
  removeConflicts : ∀ tx, ∃ after removed, pool.removeConflicts tx [] = some (after, removed) ∧
    Orphanless pool after
  removeCoinbaseSpends : ∀ coins memPoolHeight maturity, ∃ after,
    pool.removeCoinbaseSpends coins memPoolHeight maturity = some after ∧ Orphanless pool after
  hashList : ∀ hash, pool.exists_ hash = true → hash ∈ pool.hashList
  once : pool.defragmentHashList.hashList.Nodup
  rows : ∀ hash, hash ∈ pool.defragmentHashList.hashList ↔ pool.exists_ hash = true
  parentsFirst : pool.defragmentHashList.hashList.Pairwise fun first later =>
    ¬ pool.SpendsFrom first later

theorem Sound.structured (hpool : Sound pool) : Structured pool where
  mapNextTx := fun prevout => by
    constructor
    · rintro ⟨inPoint, hlookup⟩
      obtain ⟨⟨entry, hentry, htx⟩, hinput⟩ := hpool.indexed.spent prevout inPoint hlookup
      obtain ⟨input, hget, hprevout⟩ := Option.map_eq_some_iff.mp hinput
      exact ⟨_, entry, hentry, input, htx ▸ List.mem_of_getElem? hget, hprevout⟩
    rintro ⟨hash, entry, hentry, input, hinput, rfl⟩
    obtain ⟨n, hmarked⟩ := hpool.indexed.marked hash entry hentry input hinput
    exact ⟨_, hmarked⟩
  totalTxSize := hpool.indexed.size
  remove := fun origTx => by
    obtain ⟨after, removed, hremove, hafter⟩ := remove_spec hpool.indexed origTx [] true
    refine ⟨after, removed, hremove, ?_, (hafter.cut rfl).orphanless, hafter.orphans rfl⟩
    unfold exists_
    rw [hafter.gone]
    rfl
  removeConflicts := fun tx => by
    obtain ⟨after, removed, hremove, hafter⟩ := removeConflicts_spec hpool.indexed tx []
    exact ⟨after, removed, hremove, hafter.orphanless⟩
  removeCoinbaseSpends := fun coins memPoolHeight maturity => by
    obtain ⟨after, hremove, hafter⟩ :=
      removeCoinbaseSpends_spec hpool.indexed coins memPoolHeight maturity
    exact ⟨after, hremove, hafter.orphanless⟩
  hashList := hpool.listed.listed
  once := hpool.listed.once
  rows := fun _ => mem_liveRows hpool.listed
  parentsFirst := hpool.listed.ordered

/-- A transaction that spends the first output of another one. -/
def chainedEntry (hash spent : Hash256) : TxMemPoolEntry where
  tx := ⟨hash, [⟨⟨spent, 0⟩, []⟩], [⟨5, []⟩]⟩
  txSize := 100

end TxMemPool

end Amberchain.MemPool
