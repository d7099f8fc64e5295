import Amberchain.Entity.Runs

/-!
# The log behind every run

A rollback cuts the log where the rows get old enough, and a commit puts its
txid rows in front of it.  Every reachable database is backed by a log.
-/

namespace Amberchain.Entity

def Log.upTo (log : Log) (block : ℤ) : Log :=
  log.dropWhile fun entry => decide (block < entry.row.block)

namespace Log

variable {ledger : EntityLedger} {log : Log} {block : ℤ}

theorem upTo_suffix (log : Log) (block : ℤ) : log.upTo block <:+ log :=
  List.dropWhile_suffix _

theorem upTo_cons_of_lt {entry : Placed} {older : Log} (hblock : block < entry.row.block) :
    upTo (entry :: older) block = older.upTo block :=
  List.dropWhile_cons_of_pos (decide_eq_true hblock)

theorem upTo_cons_of_le {entry : Placed} {older : Log} (hblock : entry.row.block ≤ block) :
    upTo (entry :: older) block = entry :: older :=
  List.dropWhile_cons_of_neg (by simpa using hblock)

/-- Blocks fall along a log, so all that is left is old enough. -/
theorem block_le_of_mem_upTo (hlog : Chained ledger log) :
    ∀ entry ∈ log.upTo block, entry.row.block ≤ block := by
  induction hlog with
  | nil => exact fun _ hentry => absurd hentry List.not_mem_nil
  | @cons newest older hrow hprev hfree hblock holder ih =>
    by_cases hnew : block < newest.row.block
    · rw [upTo_cons_of_lt hnew]
      exact ih
    have hold : newest.row.block ≤ block := Int.not_lt.mp hnew
    rw [upTo_cons_of_le hold]
    intro entry hentry
    rcases List.mem_cons.mp hentry with rfl | hmem
    · exact hold
    exact Int.le_trans (hblock entry hmem) hold

end Log

namespace AssetDB

variable {params : ChainParams} {assets : AssetDB} {log live : Log} {loop : CommitLoop}

theorem header_commit (db : EntityDB) (batch : List EntityWrite) (header : EntityHeader) :
    (db.commit (batch ++ [.header header])).header = some header := by
  rw [EntityDB.commit_append]
  rfl

variable (params) in
/-- The loop goes down the log.  It stops where the rows are old enough, unless
an asset is missing on the way. -/
theorem rollBackLoop_spec (block : ℤ) (hlive : Chained assets.ledger live) :
    ∀ fuel batch, live.lastPos.toNat < fuel → ∃ cut : Log, cut <:+ live ∧
        (assets.rollBackLoop params block fuel live.lastPos batch).2.1 = cut.lastPos ∧
        ((assets.rollBackLoop params block fuel live.lastPos batch).2.2 = true →
          cut = live.upTo block) := by
  induction live with
  | nil =>
    intro fuel batch hfuel
    refine ⟨[], List.suffix_rfl, ?_, fun _ => rfl⟩
    cases fuel with
    | zero => rfl
    | succ fuel => rfl
  | cons entry older ih =>
    intro fuel batch hfuel
    have hrow := hlive.getRow_eq (.head _)
    have hpos : ¬ entry.pos ≤ 0 := Int.not_le.mpr (hlive.pos_pos (.head _))
    cases fuel with
    | zero => exact absurd hfuel (Nat.not_lt_zero _)
    | succ fuel =>
      rw [Log.lastPos_cons] at hfuel ⊢
      unfold rollBackLoop
      rw [if_neg hpos, hrow]
      by_cases hold : entry.row.block ≤ block
      · rw [if_pos hold, Log.upTo_cons_of_le hold]
        exact ⟨entry :: older, List.suffix_rfl, rfl, fun _ => rfl⟩
      have hnew : block < entry.row.block := Int.not_le.mp hold
      rw [if_neg hold, Log.upTo_cons_of_lt hnew]
      dsimp only
      split
      · have hprev : entry.row.prevPos = Log.lastPos older := by
          cases hlive with
          | cons _ hprev _ _ _ => exact hprev
        have holder : Chained assets.ledger older := hlive.of_suffix (List.suffix_cons entry older)
        have hless : (Log.lastPos older).toNat < fuel := by
          cases older with
          | nil =>
            show 0 < fuel
            omega
          | cons before rest =>
            have hlt := hlive.pos_lt (.head _)
            show before.pos.toNat < fuel
            omega
        rw [hprev]
        obtain ⟨cut, hcut, hend, hfound⟩ := ih holder fuel _ hless
        exact ⟨cut, hcut.trans (List.suffix_cons entry older), hend, hfound⟩
      exact ⟨entry :: older, List.suffix_rfl, rfl, fun hfalse => by cases hfalse⟩

theorem rollBack_eq (block : ℤ) : assets.rollBack params block =
      let clear := assets.clearMemPool
      let loop := clear.rollBackLoop params block (clear.prevPos.toNat + 1) clear.prevPos
        clear.batch
      let header : EntityHeader := ⟨block, loop.2.1⟩
      if loop.2.2 then
        ({ clear with
            db := clear.db.commit (loop.1 ++ [.header header])
            batch := []
            ledger := { clear.ledger with header := some header }
            block := block
            prevPos := loop.2.1
            pos := clear.ledger.behind loop.2.1 }, none)
      else ({ clear with batch := loop.1, prevPos := loop.2.1 }, some .internalError) :=
  rfl

variable (params) in
/-- A rollback of a backed database either keeps what is not above the block, and
both headers with it, or stops at an asset that is missing. -/
theorem Backed.rollBack (hassets : Backed assets log live) (block : ℤ) :
    (∃ live' : Log, Backed assets.clearMemPool log live' ∧
        Backed (assets.rollBack params block).1 (live'.upTo block) (live'.upTo block) ∧
        (assets.rollBack params block).2 = none) ∨
      ∃ live' : Log, Backed (assets.rollBack params block).1 log live' ∧
        (assets.rollBack params block).2 = some .internalError := by
  obtain ⟨live', hclear, hempty, -⟩ := hassets.clearMemPool
  have hlive := hclear.chained.of_suffix hclear.suffix
  obtain ⟨cut, hcut, hend, hfound⟩ := rollBackLoop_spec params block hlive
    (live'.lastPos.toNat + 1) assets.clearMemPool.batch (Nat.lt_succ_self _)
  rw [rollBack_eq]
  simp only [hclear.prevPos]
  split
  · rename_i hall
    have hupTo := hfound hall
    rw [hupTo] at hend
    have hchained := hlive.of_suffix (live'.upTo_suffix block)
    refine .inl ⟨live', hclear, ⟨?_, ?_, ?_, ?_, List.suffix_rfl, hend, ?_, ?_, ?_⟩, rfl⟩
    · rw [header_commit, hend]
    · rw [hend]
    · exact hchained.of_row_eq rfl
    · exact Log.block_le_of_mem_upTo hlive
    · exact Int.le_of_eq (by rw [hend, hchained.behind_lastPos])
    · simp [hempty]
    · simp [hempty]
  refine .inr ⟨cut, ⟨hclear.dbHeader, hclear.ledgerHeader, hclear.chained,
    hclear.received, hcut.trans hclear.suffix, hend, hclear.free, ?_, ?_⟩, rfl⟩
  · simp [hempty]
  simp [hempty]

/-- What the rounds of a commit keep of the database they started from. -/
structure Kept (assets : AssetDB) (log : Log) (loop : CommitLoop) : Prop where
  db : loop.assets.db = assets.db
  header : loop.assets.ledger.header = assets.ledger.header
  block : loop.assets.block = assets.block
  memPool : loop.assets.memPool.map EntityRow.unlinked = assets.memPool.map EntityRow.unlinked
  chained : Chained loop.assets.ledger log

structure Placing (assets : AssetDB) (log live : Log) (loop : CommitLoop) (placed : Log) :
    Prop where
  chained : Chained loop.assets.ledger (placed ++ live)
  prevPos : loop.assets.prevPos = (placed ++ live).lastPos
  free : (placed ++ live).endPos ≤ loop.nextPos
  behind : log.endPos ≤ loop.nextPos
  received : ∀ entry ∈ placed, entry.row.block = assets.block + 1
  above : ∀ entry ∈ placed, log.endPos ≤ entry.pos

namespace Kept

theorem length (hkept : Kept assets log loop) :
    loop.assets.memPool.length = assets.memPool.length := by
  have hlength := congrArg List.length hkept.memPool
  simpa using hlength

theorem block_eq (hkept : Kept assets log loop) (hassets : Backed assets log live)
    {row : EntityRow} (hrow : row ∈ loop.assets.memPool) : row.block = assets.block + 1 := by
  have hmem : row.unlinked ∈ assets.memPool.map EntityRow.unlinked := by
    rw [← hkept.memPool]
    exact List.mem_map_of_mem hrow
  obtain ⟨start, hstart, heq⟩ := List.mem_map.mp hmem
  have hblock : start.unlinked.block = row.unlinked.block := by rw [heq]
  exact hblock.symm.trans (hassets.memPool start hstart)

end Kept

variable (params) in
/-- One round for a txid row places it, unless it fails. -/
theorem commitTxid_placing {placed : Log} (hassets : Backed assets log live)
    (hkept : Kept assets log loop) (hplacing : Placing assets log live loop placed)
    {index : ℕ} {row : EntityRow} (hrow : loop.assets.memPool[index]? = some row) :
    Kept assets log (commitTxid params loop index row) ∧
      ((commitTxid params loop index row).failed = false →
        Placing assets log live (commitTxid params loop index row)
          (⟨loop.nextPos, loop.placedRow row⟩ :: placed)) := by
  have hmem := (loop.map_unlinked_placedMemPool row hrow).trans hkept.memPool
  have hblock := hkept.block_eq hassets (List.mem_of_getElem? hrow)
  have hwritten := hkept.chained.setRow hplacing.behind (loop.placedRow row)
  rw [commitTxid_eq]
  split
  · exact ⟨⟨hkept.db, hkept.header, hkept.block, hmem, hkept.chained⟩,
      fun hfalse => by cases hfalse⟩
  split
  · exact ⟨⟨hkept.db, hkept.header, hkept.block, hmem, hkept.chained⟩,
      fun hfalse => by cases hfalse⟩
  split
  · refine ⟨⟨hkept.db, hkept.header, hkept.block, hmem, hwritten⟩, fun _ => ?_⟩
    refine ⟨?_, rfl, ?_, ?_, ?_, ?_⟩
    · refine hplacing.chained.append hplacing.free ?_ ?_
      · exact hplacing.prevPos
      intro before hbefore
      rw [CommitLoop.placedRow_block, hblock]
      rcases List.mem_append.mp hbefore with hnew | hold
      · exact Int.le_of_eq (hplacing.received before hnew)
      have hle := hassets.received before (hassets.suffix.subset hold)
      omega
    · exact Int.le_refl _
    · have hsize := (loop.placedRow row).size_pos
      show log.endPos ≤ loop.nextPos + (loop.placedRow row).size
      have hbehind := hplacing.behind
      omega
    · intro entry hentry
      rcases List.mem_cons.mp hentry with rfl | hold
      · rw [CommitLoop.placedRow_block, hblock]
      · exact hplacing.received entry hold
    intro entry hentry
    rcases List.mem_cons.mp hentry with rfl | hold
    · exact hplacing.behind
    · exact hplacing.above entry hold
  exact ⟨⟨hkept.db, hkept.header, hkept.block, hmem, hwritten⟩, fun hfalse => by cases hfalse⟩

theorem commitRow_failed (hfailed : loop.failed = true) (index : ℕ) :
    commitRow params loop index = loop := by
  unfold commitRow
  rw [if_pos hfailed]

theorem commitRow_txid (hgoes : loop.failed = false) {index : ℕ} {row : EntityRow}
    (hrow : loop.assets.memPool[index]? = some row) (htype : row.key.type.isTxid = true) :
    commitRow params loop index = commitTxid params loop index row := by
  unfold commitRow
  rw [List.getD_eq_getElem?_getD, hrow, Option.getD_some]
  rw [hgoes, if_neg Bool.false_ne_true, if_pos htype]

theorem commitRow_other (hgoes : loop.failed = false) {index : ℕ} {row : EntityRow}
    (hrow : loop.assets.memPool[index]? = some row) (htype : row.key.type.isTxid = false) :
    commitRow params loop index = { loop with
        assets :=
          { loop.assets with
            batch := loop.assets.batch ++ loop.assets.rowWrites params row none } } := by
  unfold commitRow
  rw [List.getD_eq_getElem?_getD, hrow, Option.getD_some]
  rw [hgoes, if_neg Bool.false_ne_true, htype, if_neg Bool.false_ne_true]

theorem Kept.getElem?_eq (hkept : Kept assets log loop) {index : ℕ} {start : EntityRow}
    (hstart : assets.memPool[index]? = some start) :
    ∃ row, loop.assets.memPool[index]? = some row ∧ row.unlinked = start.unlinked := by
  have hget := congrArg (fun rows : List EntityRow => rows[index]?) hkept.memPool
  simp only [List.getElem?_map, hstart, Option.map_some] at hget
  obtain ⟨row, hrow, heq⟩ := Option.map_eq_some_iff.mp hget
  exact ⟨row, hrow, heq⟩

variable (params) in
/-- Behind any number of rounds the loop has placed rows in front of the log, or
has failed. -/
theorem commitUpTo_placing (hassets : Backed assets log live) :
    ∀ rounds, rounds ≤ assets.memPool.length → Kept assets log (assets.commitUpTo params rounds) ∧
        ((assets.commitUpTo params rounds).failed = false →
          ∃ placed, Placing assets log live (assets.commitUpTo params rounds) placed ∧
            (rounds = 0 → placed = []) ∧ (0 < rounds → placed ≠ [])) := by
  intro rounds
  induction rounds with
  | zero =>
    intro _
    refine ⟨⟨rfl, rfl, rfl, rfl, hassets.chained⟩, fun _ => ⟨[], ?_, fun _ => rfl, ?_⟩⟩
    · have hend : Log.endPos live ≤ log.endPos := (hassets.chained.endPos_le hassets.suffix).1
      have hnext : (assets.commitUpTo params 0).nextPos = assets.pos := Int.add_zero _
      refine ⟨hassets.chained.of_suffix hassets.suffix, hassets.prevPos, ?_, ?_, ?_, ?_⟩
      · rw [hnext]
        exact Int.le_trans hend hassets.free
      · rw [hnext]
        exact hassets.free
      · exact fun _ hentry => absurd hentry List.not_mem_nil
      · exact fun _ hentry => absurd hentry List.not_mem_nil
    · exact fun hpos => absurd hpos (Nat.lt_irrefl 0)
  | succ rounds ih =>
    intro hle
    obtain ⟨hkept, hplacing⟩ := ih (by omega)
    rw [commitUpTo_succ]
    cases hgoes : (assets.commitUpTo params rounds).failed with
    | true =>
      rw [commitRow_failed hgoes]
      exact ⟨hkept, fun hfalse => by rw [hgoes] at hfalse; cases hfalse⟩
    | false =>
      obtain ⟨placed, hplaced, -, hsome⟩ := hplacing hgoes
      have hstart : assets.memPool[rounds]? = some assets.memPool[rounds] :=
        List.getElem?_eq_getElem hle
      obtain ⟨row, hrow, hunlinked⟩ := hkept.getElem?_eq hstart
      cases htype : row.key.type.isTxid with
      | true =>
        rw [commitRow_txid hgoes hrow htype]
        obtain ⟨hnext, hgoing⟩ := commitTxid_placing params hassets hkept hplaced hrow
        refine ⟨hnext, fun hfalse => ⟨_, hgoing hfalse, ?_, ?_⟩⟩
        · exact fun hzero => absurd hzero (Nat.succ_ne_zero rounds)
        · exact fun _ => List.cons_ne_nil _ _
      | false =>
        rw [commitRow_other hgoes hrow htype]
        refine ⟨⟨hkept.db, hkept.header, hkept.block, hkept.memPool, hkept.chained⟩,
          fun _ => ⟨placed, ?_, ?_, ?_⟩⟩
        · exact ⟨hplaced.chained, hplaced.prevPos, hplaced.free, hplaced.behind,
            hplaced.received, hplaced.above⟩
        · exact fun hzero => absurd hzero (Nat.succ_ne_zero rounds)
        intro _
        -- the first row of the mempool is a txid row
        refine hsome (Nat.pos_of_ne_zero fun hzero => ?_)
        subst hzero
        have hfirst := hassets.first assets.memPool[0] (by
          rw [List.head?_eq_getElem?, hstart]
          rfl)
        have hkey : row.unlinked.key = assets.memPool[0].unlinked.key := by rw [hunlinked]
        have hkey' : row.key = assets.memPool[0].key := hkey
        rw [← hkey', htype] at hfirst
        cases hfirst

theorem commit_eq : assets.commit params =
      let loop := assets.commitLoop params
      let header : EntityHeader := ⟨loop.assets.block + 1, loop.assets.prevPos⟩
      if loop.failed then
        (({ loop.assets with pos := loop.nextPos }.rollBack params loop.assets.block).1,
          some .internalError)
      else
        ({ loop.assets with
            db := loop.assets.db.commit (loop.assets.batch ++ [.header header])
            batch := []
            ledger := { loop.assets.ledger with header := some header }
            memPool := []
            block := loop.assets.block + 1
            pos := loop.nextPos }, none) :=
  rfl

variable (params) in
/-- With rows in the mempool, a rollback starts from the headers, and one to their
block finds nothing to remove. -/
theorem rollBackLoop_to_header (hne : assets.memPool ≠ [])
    (hheader : assets.ledger.header = some ⟨assets.block, log.lastPos⟩)
    (hlog : Chained assets.ledger log) (hreceived : ∀ entry ∈ log, entry.row.block ≤ assets.block) :
    assets.clearMemPool = { assets with memPool := [], prevPos := log.lastPos, pos := log.endPos } ∧
      assets.clearMemPool.rollBackLoop params assets.block
          (assets.clearMemPool.prevPos.toNat + 1) assets.clearMemPool.prevPos
          assets.clearMemPool.batch = (assets.batch, log.lastPos, true) := by
  have hclear : assets.clearMemPool =
      { assets with memPool := [], prevPos := log.lastPos, pos := log.endPos } := by
    unfold clearMemPool
    rw [if_neg hne, hheader, Option.getD_some]
    simp only [hlog.behind_lastPos]
  have hprev : assets.clearMemPool.prevPos = log.lastPos := by rw [hclear]
  have hbatch : assets.clearMemPool.batch = assets.batch := by rw [hclear]
  refine ⟨hclear, ?_⟩
  rw [hprev, hbatch]
  unfold rollBackLoop
  split
  · rfl
  rename_i hpos
  cases hlog with
  | nil => exact absurd (Int.le_refl 0) hpos
  | @cons entry older hrow hprev hfree hblock holder =>
    have hnewest : assets.clearMemPool.ledger.getRow entry.pos = entry.row := by
      rw [hclear]
      unfold EntityLedger.getRow
      rw [hrow]
      rfl
    rw [Log.lastPos_cons, hnewest, if_pos (hreceived entry (.head _))]

variable (params) in
theorem rollBack_to_header (hne : assets.memPool ≠ [])
    (hheader : assets.ledger.header = some ⟨assets.block, log.lastPos⟩)
    (hlog : Chained assets.ledger log) (hreceived : ∀ entry ∈ log, entry.row.block ≤ assets.block) :
    assets.rollBack params assets.block = ({ assets with
          db := assets.db.commit (assets.batch ++ [.header ⟨assets.block, log.lastPos⟩])
          batch := []
          memPool := []
          prevPos := log.lastPos
          pos := log.endPos }, none) := by
  obtain ⟨hclear, hloop⟩ := rollBackLoop_to_header params hne hheader hlog hreceived
  have hledger : ({ assets.ledger with header := some ⟨assets.block, log.lastPos⟩ } :
      EntityLedger) = assets.ledger := by
    rw [← hheader]
  rw [rollBack_eq]
  simp only [hloop, if_true]
  simp only [hclear, hledger, hlog.behind_lastPos]

/-- A commit that goes through: the headers point to the rows that it placed in
front of the log. -/
theorem Backed.commit_placed (hassets : Backed assets log live) {placed : Log}
    (hgoes : (assets.commitLoop params).failed = false)
    (hkept : Kept assets log (assets.commitLoop params))
    (hplaced : Placing assets log live (assets.commitLoop params) placed) :
    Backed (assets.commit params).1 (placed ++ live) (placed ++ live) ∧
      (assets.commit params).2 = none := by
  rw [commit_eq]
  dsimp only
  rw [hgoes, if_neg Bool.false_ne_true]
  refine ⟨⟨?_, ?_, hplaced.chained.of_row_eq rfl, ?_, List.suffix_rfl, hplaced.prevPos,
    hplaced.free, fun _ hrow => absurd hrow List.not_mem_nil, fun _ hrow => by cases hrow⟩, rfl⟩
  · rw [header_commit, hplaced.prevPos]
  · rw [hplaced.prevPos]
  intro entry hentry
  show entry.row.block ≤ (assets.commitLoop params).assets.block + 1
  rw [hkept.block]
  rcases List.mem_append.mp hentry with hnew | hold
  · exact Int.le_of_eq (hplaced.received entry hnew)
  have hle := hassets.received entry (hassets.suffix.subset hold)
  omega

theorem Backed.commit_ok (hassets : Backed assets log live)
    (hgoes : (assets.commitLoop params).failed = false) : ∃ placed : Log,
      Placing assets log live (assets.commitLoop params) placed ∧
      Backed (assets.commit params).1 (placed ++ live) (placed ++ live) ∧
      (assets.memPool = [] → placed = []) ∧ (assets.memPool ≠ [] → placed ≠ []) := by
  obtain ⟨hkept, hplacing⟩ :=
    commitUpTo_placing params hassets assets.memPool.length (Nat.le_refl _)
  obtain ⟨placed, hplaced, hnone, hsome⟩ := hplacing hgoes
  exact ⟨placed, hplaced, (hassets.commit_placed hgoes hkept hplaced).1,
    fun hempty => hnone (by rw [hempty]; rfl), fun hne => hsome (List.length_pos_iff.mpr hne)⟩

/-- The loop of a failing commit, as its rollback finds it: rows wait in the
mempool, and the ledger holds the log that the headers stand for. -/
theorem Backed.failed_loop (hassets : Backed assets log live)
    (hfailed : (assets.commitLoop params).failed = true) :
    Kept assets log (assets.commitLoop params) ∧ (assets.commitLoop params).assets.memPool ≠ [] ∧
      (assets.commitLoop params).assets.ledger.header =
        some ⟨(assets.commitLoop params).assets.block, log.lastPos⟩ ∧
      ∀ entry ∈ log, entry.row.block ≤ (assets.commitLoop params).assets.block := by
  have hkept := (commitUpTo_placing params hassets assets.memPool.length (Nat.le_refl _)).1
  rw [← commitLoop_eq] at hkept
  refine ⟨hkept, fun hempty => ?_, ?_, ?_⟩
  · have hlength := hkept.length
    rw [hempty] at hlength
    have hstart : assets.commitLoop params = assets.commitUpTo params 0 := by
      rw [commitLoop_eq, ← hlength]
      rfl
    rw [hstart] at hfailed
    cases hfailed
  · rw [hkept.header, hkept.block, hassets.ledgerHeader]
  rw [hkept.block]
  exact hassets.received

theorem Backed.commit_failed (hassets : Backed assets log live)
    (hfailed : (assets.commitLoop params).failed = true) : assets.commit params =
      ({ (assets.commitLoop params).assets with
          db := assets.db.commit
            ((assets.commitLoop params).assets.batch ++ [.header ⟨assets.block, log.lastPos⟩])
          batch := []
          memPool := []
          prevPos := log.lastPos
          pos := log.endPos }, some .internalError) := by
  obtain ⟨hkept, hne, hheader, hreceived⟩ := hassets.failed_loop hfailed
  have hback := @rollBack_to_header params
    { (assets.commitLoop params).assets with pos := (assets.commitLoop params).nextPos } log hne
    hheader hkept.chained hreceived
  rw [commit_eq]
  dsimp only at hback ⊢
  rw [if_pos hfailed, hback, hkept.db, hkept.block]

theorem Backed.commit_failed_backed (hassets : Backed assets log live)
    (hfailed : (assets.commitLoop params).failed = true) :
    Backed (assets.commit params).1 log log := by
  obtain ⟨hkept, _, hheader, hreceived⟩ := hassets.failed_loop hfailed
  rw [hassets.commit_failed hfailed]
  refine ⟨?_, hheader, hkept.chained, hreceived, List.suffix_rfl, rfl, Int.le_refl _,
    fun _ hrow => absurd hrow List.not_mem_nil, fun _ hrow => by cases hrow⟩
  rw [header_commit, hkept.block]

theorem Backed.commit (hassets : Backed assets log live) :
    ∃ log live, Backed (assets.commit params).1 log live := by
  cases hgoes : (assets.commitLoop params).failed with
  | false =>
    obtain ⟨placed, _, hcommitted, _⟩ := hassets.commit_ok hgoes
    exact ⟨_, _, hcommitted⟩
  | true => exact ⟨log, log, hassets.commit_failed_backed hgoes⟩

variable (params) in
theorem Backed.apply (hassets : Backed assets log live) (op : Op) :
    ∃ log live, Backed (assets.apply params op) log live := by
  cases op with
  | insertEntity issue entityType =>
    exact ⟨log, live, hassets.adds (adds_insertEntity issue entityType)⟩
  | insertAsset issue quantity name multiple =>
    exact ⟨log, live, hassets.adds (adds_insertKeys rfl rfl issue.updateMempool)⟩
  | insertAssetFollowOn issue quantity originalTxid =>
    exact ⟨log, live, hassets.adds (adds_insertAssetFollowOn issue quantity originalTxid)⟩
  | commit => exact hassets.commit
  | rollBack block =>
    rcases hassets.rollBack params block with ⟨live', _, hback, _⟩ | ⟨live', hback, _⟩
    · exact ⟨_, _, hback⟩
    · exact ⟨_, _, hback⟩
  | clearMemPool =>
    obtain ⟨live', hclear, _⟩ := hassets.clearMemPool
    exact ⟨log, live', hclear⟩
  | restart =>
    show ∃ log live, Backed (initializeFrom assets.db assets.ledger).1 log live
    rw [hassets.initializeFrom_eq]
    exact ⟨log, log, hassets.reopened⟩

theorem backed_start : Backed (initializeFrom .empty .empty).1 [] [] where
  dbHeader := rfl
  ledgerHeader := rfl
  chained := .nil
  received := fun _ hentry => absurd hentry List.not_mem_nil
  suffix := List.suffix_rfl
  prevPos := rfl
  free := Int.le_refl _
  memPool := fun _ hrow => absurd hrow List.not_mem_nil
  first := fun _ hrow => by cases hrow

theorem Reachable.backed (hreach : Reachable params assets) :
    ∃ log live, Backed assets log live := by
  induction hreach with
  | start => exact ⟨[], [], backed_start⟩
  | apply op _ ih =>
    obtain ⟨log, live, hbacked⟩ := ih
    exact hbacked.apply params op

end AssetDB

end Amberchain.Entity
