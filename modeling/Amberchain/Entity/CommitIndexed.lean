import Amberchain.Entity.SoundRuns

/-!
# A commit keeps the index

The loop of `Commit` goes through the mempool issue by issue.  A new entity gets
its ledger row and its key rows; a follow-on gets its place in the chain, which
the insertion predicted or which the asset's mempool row remembers, and moves its
asset on.
-/

namespace Amberchain.Entity

open LinkedLog

variable {params : ChainParams} {tracked : EntityKey → Prop} {log : Log}
  {pending done rest : List Pending} {issue : Pending}

def txidSize (rows : List EntityRow) : ℤ :=
  ((rows.filter fun row => row.key.type.isTxid).map EntityRow.size).sum

theorem txidSize_append (first second : List EntityRow) :
    txidSize (first ++ second) = txidSize first + txidSize second := by
  unfold txidSize
  rw [List.filter_append, List.map_append, List.sum_append]

theorem lastOfChain_cons (firstPos : ℤ) (row : EntityRow) (rows : List EntityRow)
    (pos lastPos : ℤ) : AssetDB.lastOfChain firstPos (row :: rows) pos lastPos =
      if row.key.type.isTxid then
        AssetDB.lastOfChain firstPos rows (pos + row.size)
          (if row.key.type.isFollowOn ∧ row.firstPos = firstPos then pos else lastPos)
      else AssetDB.lastOfChain firstPos rows pos lastPos :=
  rfl

theorem lastOfChain_append (firstPos : ℤ) (second : List EntityRow) :
    ∀ (first : List EntityRow) (pos lastPos : ℤ),
      AssetDB.lastOfChain firstPos (first ++ second) pos lastPos =
        AssetDB.lastOfChain firstPos second (pos + txidSize first)
          (AssetDB.lastOfChain firstPos first pos lastPos) := by
  intro first
  induction first with
  | nil =>
    intro pos lastPos
    rw [show txidSize [] = 0 from rfl, Int.add_zero]
    rfl
  | cons row rows ih =>
    intro pos lastPos
    have hsize : txidSize (row :: rows) =
        (if row.key.type.isTxid then row.size else 0) + txidSize rows := by
      unfold txidSize
      rw [List.filter_cons]
      split
      · rw [List.map_cons, List.sum_cons]
      · rw [Int.zero_add]
    rw [List.cons_append, hsize, lastOfChain_cons, lastOfChain_cons]
    split
    · rw [ih, Int.add_assoc]
    rw [ih, Int.zero_add]

theorem txidSize_rows (htype : issue.row.key.type.isTxid = true) :
    txidSize (issue.rows params) = issue.row.size := by
  obtain ⟨others, hrows, _, htypes, _⟩ := issue.rows_eq params
  have hnone : (others.map fun key => { issue.row with key := key }).filter
      (fun row => row.key.type.isTxid) = [] := by
    rw [List.filter_eq_nil_iff]
    intro row hrow
    obtain ⟨key, hkey, rfl⟩ := List.mem_map.mp hrow
    rw [htypes key hkey]
    exact Bool.false_ne_true
  unfold txidSize
  rw [hrows, List.filter_cons, if_pos htype, hnone]
  simp

theorem lastOfChain_rows (htype : issue.row.key.type.isTxid = true) (firstPos pos lastPos : ℤ) :
    AssetDB.lastOfChain firstPos (issue.rows params) pos lastPos =
      if issue.row.key.type.isFollowOn ∧ issue.row.firstPos = firstPos then pos else lastPos := by
  obtain ⟨others, hrows, _, htypes, _⟩ := issue.rows_eq params
  have hothers : ∀ (keys : List EntityKey), (∀ key ∈ keys, key.type.isTxid = false) →
      ∀ pos lastPos : ℤ, AssetDB.lastOfChain firstPos
        (keys.map fun key => { issue.row with key := key }) pos lastPos = lastPos := by
    intro keys
    induction keys with
    | nil => exact fun _ _ _ => rfl
    | cons key keys ih =>
      intro hkeys pos lastPos
      rw [List.map_cons, lastOfChain_cons]
      rw [hkeys key (.head _)]
      exact ih (fun other hother => hkeys other (.tail _ hother)) pos lastPos
  rw [hrows, lastOfChain_cons, if_pos htype, hothers others htypes]

variable {row other : EntityRow}

section

variable (hsame : row.unlinked = other.unlinked)

include hsame

theorem EntityRow.keys_of_unlinked :
    row.keys params = other.keys params := by
  have hkeys : row.unlinked.keys params = other.unlinked.keys params := by rw [hsame]
  exact hkeys

theorem EntityRow.otherKeys_of_unlinked : row.otherKeys params = other.otherKeys params := by
  have hkeys : row.unlinked.otherKeys params = other.unlinked.otherKeys params := by rw [hsame]
  exact hkeys

theorem EntityRow.accepted_of_unlinked (original : Hash256) :
    row.accepted original = other.accepted original := by
  have haccepted : row.unlinked.accepted original = other.unlinked.accepted original := by rw [hsame]
  exact haccepted

theorem EntityRow.size_of_unlinked : row.size = other.size := by
  have hsize : row.unlinked.size = other.unlinked.size := by rw [hsame]
  exact hsize

end

namespace AssetDB

variable {assets : AssetDB}

/-- The rows behind the txid row of an entity only add to the batch. -/
theorem commitUpTo_others (row : EntityRow) :
    ∀ (others : List EntityKey) (loop : CommitLoop) (start : ℕ), loop.failed = false →
      (∀ key ∈ others, key.type.isTxid = false) → (∀ i (hi : i < others.length),
        loop.assets.memPool[start + i]? = some { row with key := others[i] }) →
      assets.commitUpTo params start = loop → assets.commitUpTo params (start + others.length) =
        { loop with
          assets :=
            { loop.assets with
              batch := loop.assets.batch ++ others.map fun key =>
                .row key ⟨row.block, loop.assets.pos, loop.assets.pos, row.entityType⟩ } } := by
  intro others
  induction others with
  | nil =>
    intro loop start _ _ _ hstart
    simpa using hstart
  | cons key others ih =>
    intro loop start hgoes htypes hrows hstart
    have hrow := hrows 0 (Nat.succ_pos _)
    have hnext : assets.commitUpTo params (start + 1) =
        { loop with
          assets :=
            { loop.assets with
              batch := loop.assets.batch ++ [.row key ⟨row.block, loop.assets.pos,
                loop.assets.pos, row.entityType⟩] } } := by
      rw [commitUpTo_succ, hstart]
      exact commitRow_other hgoes hrow (htypes key (.head _))
    have hrest := ih
      { loop with
        assets :=
          { loop.assets with
            batch := loop.assets.batch ++ [.row key ⟨row.block, loop.assets.pos,
              loop.assets.pos, row.entityType⟩] } }
      (start + 1) hgoes
      (fun other hother => htypes other (.tail _ hother))
      (fun i hi => by
        have hlater := hrows (i + 1) (Nat.succ_lt_succ hi)
        rw [Nat.add_assoc, Nat.add_comm 1 i]
        exact hlater) hnext
    rw [List.length_cons, Nat.add_comm others.length 1, ← Nat.add_assoc, hrest, List.append_assoc]
    rfl

theorem commitTxid_written {loop : CommitLoop} {row : EntityRow} (hwritten : CanBeWritten row)
    (hread : loop.readable row = true) (index : ℕ) : commitTxid params loop index row =
      ⟨{ loop.assets with
          ledger := loop.assets.ledger.setRow loop.nextPos (loop.placedRow row)
          memPool := loop.placedMemPool row index
          prevPos := loop.nextPos
          pos := loop.nextPos
          batch := loop.assets.batch ++
            rowWrites params { loop.assets with pos := loop.nextPos } (loop.placedRow row)
              (loop.genesisRow row) }, (loop.placedRow row).size, false⟩ := by
  obtain ⟨hoffset, hscript⟩ := hwritten
  rw [commitTxid_eq]
  rw [if_neg (Int.not_lt.mpr hoffset), if_neg (Nat.not_lt.mpr hscript), if_pos hread]
  rfl

structure CommitsTo (params : ChainParams) (tracked : EntityKey → Prop) (assets : AssetDB)
    (log : Log) (done : List Pending) (loop : CommitLoop) (placed : Log) : Prop where
  loop_eq : assets.commitUpTo params (poolRows params done).length = loop
  goes : loop.failed = false
  kept : Kept assets log loop
  placing : Placing assets log log loop placed
  ordered : Ordered params tracked (placed ++ log)
  index : Indexes params tracked (assets.db.commit loop.assets.batch).rows (placed ++ log)
  issues : acceptedLog (placed ++ log) = (done.map Pending.accepted).reverse ++ acceptedLog log
  nextPos : loop.nextPos = (placed ++ log).endPos
  bytes : assets.pos + txidSize (poolRows params done) = loop.nextPos
  predicted : ∀ start ∈ log, start.row.key.type = .txid →
    lastOfChain start.pos (poolRows params done) assets.pos
        (head (ledgerView params) log start.pos) =
      head (ledgerView params) (placed ++ log) start.pos
  later : ∀ i, (poolRows params done).length ≤ i →
    loop.assets.memPool[i]? = assets.memPool[i]?
  sources : ∀ entry ∈ placed, ∃ issue ∈ done, entry.row.unlinked = issue.row.unlinked
  starts : ∀ first start rest, done = first ++ start :: rest → start.row.key.type = .txid →
    ∃ entry ∈ placed, entry.row.unlinked = start.row.unlinked ∧
      loop.assets.memPool[(poolRows params first).length]? =
        some { entry.row with chainPos := head (ledgerView params) (placed ++ log) entry.pos }

variable {loop : CommitLoop} {placed : Log}

def CommitLoop.entry (loop : CommitLoop) (issue : Pending) : Placed :=
  ⟨loop.nextPos, loop.placedRow issue.row⟩

theorem CommitsTo.row_eq (hdone : CommitsTo params tracked assets log done loop placed)
    (hmemPool : assets.memPool = poolRows params (done ++ issue :: rest)) {i : ℕ}
    (hi : i < (issue.rows params).length) :
    loop.assets.memPool[(poolRows params done).length + i]? = (issue.rows params)[i]? := by
  rw [hdone.later _ (Nat.le_add_right _ _), hmemPool, poolRows_append, poolRows_cons,
    List.getElem?_append_right (Nat.le_add_right _ _), Nat.add_sub_cancel_left,
    List.getElem?_append_left hi]

/-- The loop behind the next issue, when its row can be written. -/
theorem CommitsTo.next (hdone : CommitsTo params tracked assets log done loop placed)
    (hmemPool : assets.memPool = poolRows params (done ++ issue :: rest))
    (htype : issue.row.key.type.isTxid = true) (hwritten : CanBeWritten issue.row)
    (hread : loop.readable issue.row = true) {others : List EntityKey} (hrows : issue.rows params =
      issue.row :: others.map (fun key => { issue.row with key := key }))
    (htypes : ∀ key ∈ others, key.type.isTxid = false)
    (hstay : ∀ i, (poolRows params done).length < i →
      (loop.placedMemPool issue.row (poolRows params done).length)[i]? = loop.assets.memPool[i]?) :
    assets.commitUpTo params (poolRows params (done ++ [issue])).length = ⟨{ loop.assets with
          ledger := loop.assets.ledger.setRow loop.nextPos (loop.placedRow issue.row)
          memPool := loop.placedMemPool issue.row (poolRows params done).length
          prevPos := loop.nextPos
          pos := loop.nextPos
          batch := loop.assets.batch ++
            rowWrites params { loop.assets with pos := loop.nextPos } (loop.placedRow issue.row)
              (loop.genesisRow issue.row) ++
            others.map fun key =>
              .row key ⟨issue.row.block, loop.nextPos, loop.nextPos, issue.row.entityType⟩ },
        (loop.placedRow issue.row).size, false⟩ := by
  have hlength : (issue.rows params).length = others.length + 1 := by
    rw [hrows, List.length_cons, List.length_map]
  have hfirst : loop.assets.memPool[(poolRows params done).length]? = some issue.row := by
    have hrow := hdone.row_eq hmemPool (show 0 < (issue.rows params).length by omega)
    rw [hrows] at hrow
    exact hrow
  have hplaced : assets.commitUpTo params ((poolRows params done).length + 1) =
      commitTxid params loop (poolRows params done).length issue.row := by
    rw [commitUpTo_succ, hdone.loop_eq, commitRow_txid hdone.goes hfirst htype]
  rw [commitTxid_written hwritten hread] at hplaced
  have hrest := commitUpTo_others issue.row others _ _ rfl htypes (fun i hi => by
    have hrow := hdone.row_eq hmemPool (show i + 1 < (issue.rows params).length by omega)
    rw [hrows, List.getElem?_cons_succ, List.getElem?_map, List.getElem?_eq_getElem hi] at hrow
    rw [hstay _ (by omega), Nat.add_assoc, Nat.add_comm 1 i, hrow]
    rfl) hplaced
  rw [poolRows_append, poolRows_singleton, List.length_append, hlength,
    Nat.add_comm others.length 1, ← Nat.add_assoc, hrest]

end AssetDB

end Amberchain.Entity
