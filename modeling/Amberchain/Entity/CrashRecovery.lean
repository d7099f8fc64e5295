import Amberchain.Entity.Backed

/-!
# Crashes inside a commit or a rollback of entities

Ledger rows and the database batch reach the disk whole and in program order.  A
crash leaves the files after some of the writes, and `Initialize` opens them
again.  The mempool is not on disk, so the state before an operation is what its
files hold.
-/

namespace Amberchain.Entity

structure Files where
  db : EntityDB
  ledger : EntityLedger

/-- A write that takes effect as a whole. -/
inductive DiskWrite where
  | ledgerRow (pos : ℤ) (row : EntityRow)
  | ledgerHeader (header : EntityHeader)
  | dbCommit (batch : List EntityWrite)

namespace Files

def write (files : Files) : DiskWrite → Files
  | .ledgerRow pos row => { files with ledger := files.ledger.setRow pos row }
  | .ledgerHeader header => { files with ledger := { files.ledger with header := some header } }
  | .dbCommit batch => { files with db := files.db.commit batch }

def writeAll (files : Files) (writes : List DiskWrite) : Files :=
  writes.foldl write files

theorem writeAll_append (files : Files) (first second : List DiskWrite) :
    files.writeAll (first ++ second) = (files.writeAll first).writeAll second :=
  List.foldl_append

end Files

/-- An operation that moves whole blocks. -/
inductive FileOp where
  | commit
  | rollBack (block : ℤ)

def FileOp.toOp : FileOp → Op
  | .commit => .commit
  | .rollBack block => .rollBack block

namespace AssetDB

variable (params : ChainParams) (assets : AssetDB)

def files : Files :=
  ⟨assets.db, assets.ledger⟩

/-- What one round of `Commit` writes to the ledger. -/
def roundWrites (loop : CommitLoop) (index : ℕ) : List DiskWrite :=
  let row := loop.assets.memPool.getD index EntityRow.zero
  if loop.failed = false ∧ row.key.type.isTxid = true ∧ 0 ≤ row.offset
      ∧ row.script.length ≤ MC_ENT_SCRIPT_ALLOC_SIZE then
    [.ledgerRow loop.nextPos (loop.placedRow row)]
  else []

/-- What the first rounds of `Commit` write. -/
def rowTrace (rounds : ℕ) : List DiskWrite :=
  (List.range rounds).flatMap fun index =>
    roundWrites (assets.commitUpTo params index) index

/-- The writes of `RollBack`: the database first. -/
def rollBackTrace (block : ℤ) : List DiskWrite :=
  let clear := assets.clearMemPool
  let loop := clear.rollBackLoop params block (clear.prevPos.toNat + 1) clear.prevPos clear.batch
  let header : EntityHeader := ⟨block, loop.2.1⟩
  if loop.2.2 then [.dbCommit (loop.1 ++ [.header header]), .ledgerHeader header] else []

/-- All disk writes of an operation, in program order.  A commit that fails ends
with those of its rollback. -/
def diskTrace : FileOp → List DiskWrite
  | .commit =>
    let loop := assets.commitLoop params
    let header : EntityHeader := ⟨loop.assets.block + 1, loop.assets.prevPos⟩
    assets.rowTrace params assets.memPool.length ++
      if loop.failed then
        rollBackTrace params { loop.assets with pos := loop.nextPos } loop.assets.block
      else [.ledgerHeader header, .dbCommit (loop.assets.batch ++ [.header header])]
  | .rollBack block => assets.rollBackTrace params block

/-- The files after the first `writes` disk writes of the operation. -/
def crashed (op : FileOp) (writes : ℕ) : Files :=
  assets.files.writeAll ((assets.diskTrace params op).take writes)

/-- What `Initialize` makes of the files after the crash. -/
def restarted (op : FileOp) (writes : ℕ) : AssetDB × Option McError :=
  initializeFrom (assets.crashed params op writes).db (assets.crashed params op writes).ledger

/-- The state that the files hold. -/
def reopened : AssetDB :=
  (initializeFrom assets.db assets.ledger).1

/-- Two databases agree on the fields, on the key rows and on the live ledger. -/
structure SameState (state other : AssetDB) : Prop where
  db : other.db = state.db
  memPool : other.memPool = state.memPool
  block : other.block = state.block
  prevPos : other.prevPos = state.prevPos
  pos : other.pos = state.pos
  log : ∃ log : Log, log.lastPos = state.prevPos ∧ Chained state.ledger log ∧
    Chained other.ledger log

/-- After a crash behind some writes of the operation, the database opens without
an error, in the state before or in the state after the operation. -/
def Recovers (op : FileOp) (writes : ℕ) : Prop :=
  (assets.restarted params op writes).2 = none ∧
    (SameState assets.reopened (assets.restarted params op writes).1 ∨
      SameState (assets.apply params op.toOp).reopened (assets.restarted params op writes).1)

variable {params} {assets} {log live : Log}

theorem files_commitRow {loop : CommitLoop} {index : ℕ} {row : EntityRow}
    (hrow : loop.assets.memPool[index]? = some row) : (commitRow params loop index).assets.files =
      loop.assets.files.writeAll (roundWrites loop index) := by
  unfold roundWrites
  rw [List.getD_eq_getElem?_getD, hrow, Option.getD_some]
  dsimp only
  cases hgoes : loop.failed with
  | true =>
    rw [commitRow_failed hgoes]
    rfl
  | false =>
    cases htype : row.key.type.isTxid with
    | false =>
      rw [commitRow_other hgoes hrow htype]
      rfl
    | true =>
      rw [commitRow_txid hgoes hrow htype, commitTxid_eq]
      by_cases hoffset : row.offset < 0
      · have hnone : ¬ 0 ≤ row.offset := Int.not_le.mpr hoffset
        simp only [if_pos hoffset, hnone, false_and, and_false, if_false]
        rfl
      have hplaceable : 0 ≤ row.offset := Int.not_lt.mp hoffset
      by_cases hscript : MC_ENT_SCRIPT_ALLOC_SIZE < row.script.length
      · have hnone : ¬ row.script.length ≤ MC_ENT_SCRIPT_ALLOC_SIZE := Nat.not_le.mpr hscript
        simp only [if_neg hoffset, if_pos hscript, hnone, and_false, if_false]
        rfl
      have hfits : row.script.length ≤ MC_ENT_SCRIPT_ALLOC_SIZE := Nat.not_lt.mp hscript
      simp only [if_neg hoffset, if_neg hscript, hplaceable, hfits, and_self, if_true]
      split <;> rfl

variable (params) in
theorem files_rowTrace (hassets : Backed assets log live) :
    ∀ rounds, rounds ≤ assets.memPool.length →
      assets.files.writeAll (assets.rowTrace params rounds) =
        (assets.commitUpTo params rounds).assets.files := by
  intro rounds
  induction rounds with
  | zero => exact fun _ => rfl
  | succ rounds ih =>
    intro hle
    have hkept := (commitUpTo_placing params hassets rounds (by omega)).1
    obtain ⟨row, hrow, _⟩ := hkept.getElem?_eq (List.getElem?_eq_getElem hle)
    rw [commitUpTo_succ, files_commitRow hrow, ← ih (by omega), ← Files.writeAll_append]
    unfold rowTrace
    rw [List.range_succ, List.flatMap_append, List.flatMap_singleton]

variable (params) (assets) in
theorem files_rollBack (block : ℤ) : assets.files.writeAll (assets.rollBackTrace params block) =
      (assets.rollBack params block).1.files := by
  have hclear : assets.clearMemPool.files = assets.files := by
    unfold clearMemPool
    split <;> rfl
  rw [rollBack_eq]
  unfold rollBackTrace
  dsimp only
  rw [← hclear]
  split <;> rfl

variable (params) in
theorem files_diskTrace (hassets : Backed assets log live) (op : FileOp) :
    assets.files.writeAll (assets.diskTrace params op) = (assets.apply params op.toOp).files := by
  cases op with
  | commit =>
    show _ = (assets.commit params).1.files
    unfold diskTrace
    rw [commit_eq]
    dsimp only
    rw [Files.writeAll_append, files_rowTrace params hassets _ (Nat.le_refl _)]
    split
    · exact files_rollBack params
        { (assets.commitLoop params).assets with pos := (assets.commitLoop params).nextPos } _
    · rfl
  | rollBack block => exact files_rollBack params assets block

theorem behind_of_mem_rowTrace (hassets : Backed assets log live) {rounds : ℕ}
    (hrounds : rounds ≤ assets.memPool.length) {write : DiskWrite}
    (hwrite : write ∈ assets.rowTrace params rounds) :
    ∃ pos row, write = .ledgerRow pos row ∧ log.endPos ≤ pos := by
  obtain ⟨index, hindex, hround⟩ := List.mem_flatMap.mp hwrite
  have hlt := List.mem_range.mp hindex
  obtain ⟨_, hplacing⟩ := commitUpTo_placing params hassets index (by omega)
  unfold roundWrites at hround
  dsimp only at hround
  split at hround
  · rename_i hgoes
    obtain ⟨placed, hplaced, _⟩ := hplacing hgoes.1
    exact ⟨_, _, List.mem_singleton.mp hround, hplaced.behind⟩
  cases hround

theorem writeAll_behind (writes : List DiskWrite) : ∀ files : Files, Chained files.ledger log →
      (∀ write ∈ writes, ∃ pos row, write = .ledgerRow pos row ∧ log.endPos ≤ pos) →
      (files.writeAll writes).db = files.db ∧
        (files.writeAll writes).ledger.header = files.ledger.header ∧
        Chained (files.writeAll writes).ledger log := by
  induction writes with
  | nil => exact fun files hlog _ => ⟨rfl, rfl, hlog⟩
  | cons write writes ih =>
    intro files hlog hwrites
    obtain ⟨pos, row, rfl, hbehind⟩ := hwrites write (.head _)
    exact ih _ (hlog.setRow hbehind row) fun other hother =>
      hwrites other (.tail _ hother)

end AssetDB

end Amberchain.Entity

/-!
# Opening the entity database after a crash

Before any repair `Initialize` compares the size that the database stands for
with the size that the ledger stands for.  Between the two header writes of an
operation that moves the end of the ledger these differ, and the database does
not open.
-/

namespace Amberchain.Entity

namespace AssetDB

variable {params : ChainParams} {assets : AssetDB} {log live : Log}

def onLog (db : EntityDB) (ledger : EntityLedger) (block : ℤ) (log : Log) : AssetDB where
  db := db
  batch := []
  ledger := ledger
  memPool := []
  block := block
  prevPos := log.lastPos
  pos := log.endPos

theorem sameState_onLog {db : EntityDB} {ledger other : EntityLedger} (block : ℤ)
    (hledger : Chained ledger log) (hother : Chained other log) :
    SameState (onLog db ledger block log) (onLog db other block log) :=
  ⟨rfl, rfl, rfl, rfl, rfl, log, rfl, hledger, hother⟩

theorem initialized_onLog {db : EntityDB} {ledger : EntityLedger} {header : EntityHeader}
    (hdb : db.header = some header) (hlast : header.lastPos = log.lastPos)
    (hledger : ledger.header.isSome) (hlog : Chained ledger log) :
    initialized db ledger = onLog db ledger header.block log := by
  obtain ⟨old, hold⟩ := Option.isSome_iff_exists.mp hledger
  have hdbSame : ({ db with header := some header } : EntityDB) = db := by rw [← hdb]
  have hledgerSame : ({ ledger with header := some old } : EntityLedger) = ledger := by
    rw [← hold]
  unfold initialized onLog
  simp only [hdb, hold, Option.getD_some, hdbSame, hledgerSame, hlast, hlog.behind_lastPos]

theorem initializeFrom_onLog {db : EntityDB} {ledger : EntityLedger} {block : ℤ}
    (hdb : db.header = some ⟨block, log.lastPos⟩)
    (hledger : ledger.header = some ⟨block, log.lastPos⟩) (hlog : Chained ledger log) :
    initializeFrom db ledger = (onLog db ledger block log, none) := by
  rw [initializeFrom_agree hdb hledger hlog.readable,
    initialized_onLog hdb rfl (by rw [hledger]; rfl) hlog]

theorem Backed.reopened_eq (hassets : Backed assets log live) :
    assets.reopened = onLog assets.db assets.ledger assets.block log :=
  congrArg Prod.fst (initializeFrom_onLog hassets.dbHeader hassets.ledgerHeader hassets.chained)

/-- Headers at the end of the same log, with the ledger ahead, open as the
database. -/
theorem initializeFrom_ahead_onLog {db : EntityDB} {ledger : EntityLedger} {block ahead : ℤ}
    (hdb : db.header = some ⟨block, log.lastPos⟩)
    (hledger : ledger.header = some ⟨ahead, log.lastPos⟩) (hlog : Chained ledger log)
    (hblock : block < ahead) (hreceived : ∀ entry ∈ log, entry.row.block ≤ block) :
    initializeFrom db ledger =
      (onLog db { ledger with header := some ⟨block, log.lastPos⟩ } block log, none) := by
  have hnewest : log.lastPos ≤ 0 ∨ (ledger.getRow log.lastPos).block ≤ block := by
    cases log with
    | nil => exact .inl (Int.le_refl 0)
    | cons entry older =>
      refine .inr ?_
      rw [Log.lastPos_cons, hlog.getRow_eq (.head _)]
      exact hreceived entry (.head _)
  have hopen := @initializeFrom_ahead db ledger ⟨block, log.lastPos⟩ ⟨ahead, log.lastPos⟩ hdb
    hledger hlog.readable hblock hnewest
  have hrepaired : Chained { ledger with header := some ⟨block, log.lastPos⟩ } log :=
    hlog.of_row_eq rfl
  rw [hopen, initialized_onLog hdb rfl rfl hrepaired]

theorem initializeFrom_apart {db : EntityDB} {ledger : EntityLedger} {block ahead : ℤ}
    {first second : Log} (hdb : db.header = some ⟨block, first.lastPos⟩)
    (hledger : ledger.header = some ⟨ahead, second.lastPos⟩) (hfirst : Chained ledger first)
    (hsecond : Chained ledger second) (hends : first.endPos ≠ second.endPos) :
    (initializeFrom db ledger).2 = some .corrupted := by
  refine initializeFrom_sizes hdb hledger hfirst.readable ?_
  rw [hfirst.behind_lastPos, hsecond.behind_lastPos]
  exact hends

def headerPos (assets : AssetDB) : ℤ :=
  (assets.ledger.header.getD ⟨-1, 0⟩).lastPos

/-- The operation leaves the end of the ledger where the headers have it: a commit
without entities or one that fails, a rollback that finds no row above its
block. -/
def EndKept (params : ChainParams) (assets : AssetDB) : FileOp → Prop
  | .commit => (assets.commitLoop params).failed = true ∨
      assets.memPool = [] ∧ assets.prevPos = assets.headerPos
  | .rollBack block => block ≤ assets.block ∧ assets.clearMemPool.prevPos = assets.headerPos ∧
      (assets.headerPos = 0 ∨ (assets.ledger.getRow assets.headerPos).block ≤ block)

def BetweenHeaders (params : ChainParams) (assets : AssetDB) (op : FileOp) (writes : ℕ) : Prop :=
  writes + 1 = (assets.diskTrace params op).length

theorem Backed.headerPos_eq (hassets : Backed assets log live) :
    assets.headerPos = log.lastPos := by
  unfold headerPos
  rw [hassets.ledgerHeader]
  rfl

/-- Before the first header write, the files hold the state before. -/
theorem Backed.recovers_rows (hassets : Backed assets log live) {op : FileOp} {writes : ℕ}
    (hrows : ∀ write ∈ (assets.diskTrace params op).take writes,
      ∃ pos row, write = .ledgerRow pos row ∧ log.endPos ≤ pos) :
    Recovers params assets op writes := by
  obtain ⟨hdb, hheader, hchained⟩ := writeAll_behind _ assets.files hassets.chained hrows
  have hopen : assets.restarted params op writes =
      (onLog (assets.crashed params op writes).db (assets.crashed params op writes).ledger
        assets.block log, none) := by
    refine initializeFrom_onLog ?_ ?_ hchained
    · exact (congrArg EntityDB.header hdb).trans hassets.dbHeader
    · exact hheader.trans hassets.ledgerHeader
  unfold Recovers
  rw [hopen]
  refine ⟨rfl, .inl ?_⟩
  rw [hassets.reopened_eq]
  have hsameDb : (assets.crashed params op writes).db = assets.db := hdb
  rw [hsameDb]
  exact sameState_onLog assets.block hassets.chained hchained

/-- Files that are those after the operation open as the state after. -/
theorem Backed.recovers_after (hassets : Backed assets log live) {op : FileOp} {writes : ℕ}
    (hfiles : assets.crashed params op writes = (assets.apply params op.toOp).files) :
    Recovers params assets op writes := by
  obtain ⟨log', live', hafter⟩ := hassets.apply params op.toOp
  have hopen := initializeFrom_onLog hafter.dbHeader hafter.ledgerHeader hafter.chained
  unfold Recovers restarted
  rw [hfiles]
  refine ⟨congrArg Prod.snd hopen, .inr ?_⟩
  rw [hafter.reopened_eq]
  show SameState _ (initializeFrom (assets.apply params op.toOp).db
    (assets.apply params op.toOp).ledger).1
  rw [hopen]
  exact sameState_onLog _ hafter.chained hafter.chained

theorem Backed.recovers_all (hassets : Backed assets log live) {op : FileOp} {writes : ℕ}
    (hall : (assets.diskTrace params op).length ≤ writes) : Recovers params assets op writes := by
  refine hassets.recovers_after ?_
  unfold crashed
  rw [List.take_of_length_le hall, files_diskTrace params hassets]

theorem take_between {rows : List DiskWrite} {first second : DiskWrite} {writes : ℕ}
    (hbetween : writes + 1 = (rows ++ [first, second]).length) :
    (rows ++ [first, second]).take writes = rows ++ [first] := by
  have hsplit : rows ++ [first, second] = (rows ++ [first]) ++ [second] := by simp
  rw [hsplit] at hbetween ⊢
  refine List.take_left' ?_
  simp only [List.length_append, List.length_cons, List.length_nil] at hbetween ⊢
  omega

/-- The header writes of a failing commit say what the headers say already. -/
theorem Backed.recovers_failed (hassets : Backed assets log live) {writes : ℕ}
    (hfailed : (assets.commitLoop params).failed = true)
    (hbetween : BetweenHeaders params assets .commit writes) :
    Recovers params assets .commit writes := by
  obtain ⟨hkept, hne, hheader, hreceived⟩ := hassets.failed_loop hfailed
  have hloop := (@rollBackLoop_to_header params
    { (assets.commitLoop params).assets with pos := (assets.commitLoop params).nextPos } log
    hne hheader hkept.chained hreceived).2
  have htrace : assets.diskTrace params .commit =
      assets.rowTrace params assets.memPool.length ++
        [.dbCommit ((assets.commitLoop params).assets.batch ++
            [.header ⟨(assets.commitLoop params).assets.block, log.lastPos⟩]),
          .ledgerHeader ⟨(assets.commitLoop params).assets.block, log.lastPos⟩] := by
    unfold diskTrace rollBackTrace
    dsimp only at hloop ⊢
    rw [if_pos hfailed, hloop]
    rfl
  have hledger : ({ (assets.commitLoop params).assets.ledger with
        header := some ⟨(assets.commitLoop params).assets.block, log.lastPos⟩ } : EntityLedger) =
      (assets.commitLoop params).assets.ledger := by
    rw [← hheader]
  refine hassets.recovers_after ?_
  unfold BetweenHeaders at hbetween
  rw [htrace] at hbetween
  unfold crashed
  rw [← files_diskTrace params hassets, htrace, take_between hbetween, Files.writeAll_append,
    Files.writeAll_append, files_rowTrace params hassets _ (Nat.le_refl _)]
  exact congrArg (Files.mk _) hledger.symm

/-- Behind the ledger header of a commit, the database is still the old one, and
opens only if nothing was committed. -/
theorem Backed.recovers_committed_iff (hassets : Backed assets log live) {writes : ℕ}
    (hgoes : (assets.commitLoop params).failed = false)
    (hbetween : BetweenHeaders params assets .commit writes) :
    Recovers params assets .commit writes ↔
      assets.memPool = [] ∧ assets.prevPos = assets.headerPos := by
  obtain ⟨placed, hplaced, _, hnone, hsome⟩ := hassets.commit_ok hgoes
  have hkept := (commitUpTo_placing params hassets assets.memPool.length (Nat.le_refl _)).1
  rw [← commitLoop_eq] at hkept
  have htrace : assets.diskTrace params .commit =
      assets.rowTrace params assets.memPool.length ++
        [.ledgerHeader ⟨assets.block + 1, (placed ++ live).lastPos⟩,
          .dbCommit ((assets.commitLoop params).assets.batch ++
            [.header ⟨assets.block + 1, (placed ++ live).lastPos⟩])] := by
    unfold diskTrace
    dsimp only
    rw [hgoes, if_neg Bool.false_ne_true, hkept.block, hplaced.prevPos]
  have hcrashed : assets.crashed params .commit writes =
      ⟨assets.db, { (assets.commitLoop params).assets.ledger with
        header := some ⟨assets.block + 1, (placed ++ live).lastPos⟩ }⟩ := by
    unfold BetweenHeaders at hbetween
    rw [htrace] at hbetween
    unfold crashed
    rw [htrace, take_between hbetween, Files.writeAll_append,
      files_rowTrace params hassets _ (Nat.le_refl _)]
    exact congrArg (fun db => Files.mk db _) hkept.db
  have hold : Chained { (assets.commitLoop params).assets.ledger with
      header := some ⟨assets.block + 1, (placed ++ live).lastPos⟩ } log :=
    hkept.chained.of_row_eq rfl
  have hnew : Chained { (assets.commitLoop params).assets.ledger with
      header := some ⟨assets.block + 1, (placed ++ live).lastPos⟩ } (placed ++ live) :=
    hplaced.chained.of_row_eq rfl
  unfold Recovers restarted
  rw [hcrashed]
  constructor
  · rintro ⟨hopened, -⟩
    -- the sizes agree, so the ends do
    have hends : log.endPos = Log.endPos (placed ++ live) := by
      by_contra hne
      have hcorrupted := initializeFrom_apart hassets.dbHeader rfl hold hnew hne
      rw [hcorrupted] at hopened
      cases hopened
    have hempty : assets.memPool = [] := by
      by_contra hne
      cases hcase : placed with
      | nil => exact hsome hne hcase
      | cons entry older =>
        have habove := hplaced.above entry (by rw [hcase]; exact .head _)
        have hsize := entry.row.size_pos
        rw [hcase, List.cons_append, Log.endPos_cons] at hends
        omega
    rw [hnone hempty] at hends
    have hlive := (hassets.chained.endPos_le hassets.suffix).2 hends.symm
    exact ⟨hempty, by rw [hassets.headerPos_eq, hassets.prevPos, hlive]⟩
  rintro ⟨hempty, hprev⟩
  have hlast : Log.lastPos (placed ++ live) = log.lastPos := by
    rw [hnone hempty, List.nil_append, ← hassets.prevPos, hprev, hassets.headerPos_eq]
  have hopen := initializeFrom_ahead_onLog hassets.dbHeader (by rw [hlast]) hold
    (by omega) hassets.received
  refine ⟨congrArg Prod.snd hopen, .inl ?_⟩
  rw [hassets.reopened_eq]
  rw [hopen]
  exact sameState_onLog assets.block hassets.chained (hold.of_row_eq rfl)

theorem Backed.endKept_rollBack_iff (hassets : Backed assets log live) {block : ℤ} {rest : Log}
    (hclear : Backed assets.clearMemPool log rest) :
    EndKept params assets (.rollBack block) ↔ block ≤ assets.block ∧ rest.upTo block = log := by
  have hnewest : log = [] ∨ ∃ entry older, log = entry :: older := by
    cases log with
    | nil => exact .inl rfl
    | cons entry older => exact .inr ⟨entry, older, rfl⟩
  unfold EndKept
  rw [hassets.headerPos_eq, hclear.prevPos]
  refine and_congr_right fun _ => ⟨?_, ?_⟩
  · rintro ⟨hlast, hold⟩
    rw [hclear.chained.eq_of_lastPos hclear.suffix hlast]
    rcases hnewest with rfl | ⟨entry, older, rfl⟩
    · rfl
    have hpos := hassets.chained.pos_pos (.head _)
    have hrow := hassets.chained.getRow_eq ((.head _))
    rw [Log.lastPos_cons, hrow] at hold
    rcases hold with hzero | hblock
    · omega
    · exact Log.upTo_cons_of_le hblock
  intro hkept
  have hrest : rest = log :=
    hclear.suffix.eq_of_length_le (by
      rw [← hkept]
      exact (rest.upTo_suffix block).length_le)
  rw [hrest] at hkept ⊢
  refine ⟨rfl, ?_⟩
  rcases hnewest with rfl | ⟨entry, older, rfl⟩
  · exact .inl rfl
  refine .inr ?_
  rw [Log.lastPos_cons, hassets.chained.getRow_eq (.head _)]
  exact Log.block_le_of_mem_upTo hassets.chained entry (by
    rw [hkept]
    exact .head _)

/-- Behind the database batch of a rollback, the ledger header is still the old
one. -/
theorem Backed.recovers_rolledBack_iff (hassets : Backed assets log live) {block : ℤ}
    {writes : ℕ} (hbetween : BetweenHeaders params assets (.rollBack block) writes) :
    Recovers params assets (.rollBack block) writes ↔ EndKept params assets (.rollBack block) := by
  obtain ⟨rest, hclear, -, -⟩ := hassets.clearMemPool
  have hrest := hclear.chained.of_suffix hclear.suffix
  obtain ⟨cut, -, hend, hfound⟩ := rollBackLoop_spec params block hrest
    (rest.lastPos.toNat + 1) assets.clearMemPool.batch (Nat.lt_succ_self _)
  rw [← hclear.prevPos] at hend hfound
  unfold BetweenHeaders diskTrace rollBackTrace at hbetween
  dsimp only at hbetween
  split at hbetween
  case isFalse => cases hbetween
  case isTrue hall =>
    have hone : writes = 1 := Nat.succ_injective hbetween
    have hupTo := hfound hall
    subst hupTo
    obtain ⟨batch, htrace⟩ : ∃ batch, assets.diskTrace params (.rollBack block) =
        [.dbCommit (batch ++ [.header ⟨block, (rest.upTo block).lastPos⟩]),
          .ledgerHeader ⟨block, (rest.upTo block).lastPos⟩] := by
      unfold diskTrace rollBackTrace
      dsimp only
      rw [if_pos hall, hend]
      exact ⟨_, rfl⟩
    have hcrashed : assets.crashed params (.rollBack block) writes =
        ⟨assets.db.commit (batch ++ [.header ⟨block, (rest.upTo block).lastPos⟩]),
          assets.ledger⟩ := by
      unfold crashed
      rw [htrace, hone]
      rfl
    have hafter : (assets.apply params (.rollBack block)).files =
        ⟨assets.db.commit (batch ++ [.header ⟨block, (rest.upTo block).lastPos⟩]),
          { assets.ledger with header := some ⟨block, (rest.upTo block).lastPos⟩ }⟩ := by
      have hfiles := files_diskTrace params hassets (.rollBack block)
      rw [htrace] at hfiles
      exact hfiles.symm
    have hheader := header_commit assets.db batch ⟨block, (rest.upTo block).lastPos⟩
    have hlogCut : Chained assets.ledger (rest.upTo block) :=
      hassets.chained.of_suffix ((rest.upTo_suffix block).trans hclear.suffix)
    rw [hassets.endKept_rollBack_iff hclear]
    constructor
    · rintro ⟨hopened, -⟩
      unfold restarted at hopened
      rw [hcrashed] at hopened
      refine ⟨?_, ?_⟩
      · by_contra hnot
        have hcorrupted := initializeFrom_behind hheader hassets.ledgerHeader hlogCut.readable
          (Int.not_le.mp hnot)
        rw [hcorrupted] at hopened
        cases hopened
      by_contra hne
      have hsuffix := (rest.upTo_suffix block).trans hclear.suffix
      have hcorrupted := initializeFrom_apart hheader hassets.ledgerHeader hlogCut
        hassets.chained fun hends => hne ((hassets.chained.endPos_le hsuffix).2 hends)
      rw [hcorrupted] at hopened
      cases hopened
    rintro ⟨hle, hkept⟩
    rw [hkept] at hcrashed hafter hheader
    rcases Int.lt_or_eq_of_le hle with hlt | heq
    · have hreceived : ∀ entry ∈ log, entry.row.block ≤ block := by
        rw [← hkept]
        exact Log.block_le_of_mem_upTo hrest
      have hopen := initializeFrom_ahead_onLog hheader hassets.ledgerHeader hassets.chained
        hlt hreceived
      have hreopened : (assets.apply params (.rollBack block)).reopened =
          onLog (assets.db.commit (batch ++ [.header ⟨block, log.lastPos⟩]))
            { assets.ledger with header := some ⟨block, log.lastPos⟩ } block log := by
        have hdb := congrArg Files.db hafter
        have hledger := congrArg Files.ledger hafter
        unfold AssetDB.reopened
        dsimp only [files] at hdb hledger
        rw [hdb, hledger]
        exact congrArg Prod.fst
          (@initializeFrom_onLog log _ { assets.ledger with header := some ⟨block, log.lastPos⟩ } _
            hheader rfl (hassets.chained.of_row_eq rfl))
      unfold Recovers restarted
      rw [hcrashed]
      refine ⟨congrArg Prod.snd hopen, .inr ?_⟩
      show SameState (assets.apply params (.rollBack block)).reopened _
      rw [hreopened]
      rw [hopen]
      exact sameState_onLog block (hassets.chained.of_row_eq rfl) (hassets.chained.of_row_eq rfl)
    -- both headers are right already
    refine hassets.recovers_after ?_
    show _ = (assets.apply params (.rollBack block)).files
    rw [hcrashed, hafter]
    refine congrArg (Files.mk _) ?_
    rw [heq, ← hassets.ledgerHeader]

variable (params) in
/-- A trace is a stretch of row writes behind the log, and at most two more. -/
theorem Backed.diskTrace_split (hassets : Backed assets log live) (op : FileOp) :
    ∃ rows tail, assets.diskTrace params op = rows ++ tail ∧ tail.length ≤ 2 ∧
      ∀ write ∈ rows, ∃ pos row, write = .ledgerRow pos row ∧ log.endPos ≤ pos := by
  have hback : ∀ (other : AssetDB) (block : ℤ),
      (other.rollBackTrace params block).length ≤ 2 := by
    intro other block
    unfold rollBackTrace
    dsimp only
    split
    · exact Nat.le_refl 2
    · exact Nat.zero_le 2
  cases op with
  | commit =>
    refine ⟨_, _, rfl, ?_, fun write hwrite =>
      behind_of_mem_rowTrace hassets (Nat.le_refl _) hwrite⟩
    split
    · exact hback _ _
    · exact Nat.le_refl 2
  | rollBack block =>
    exact ⟨[], _, rfl, hback _ _, fun _ hwrite => absurd hwrite List.not_mem_nil⟩

/-- After a crash inside a commit or a rollback the database opens, in the state
before or after, exactly when the crash was not between the two header writes or
the operation leaves the end of the ledger where it was. -/
theorem entity_crash_recovers_iff (params : ChainParams) {assets : AssetDB}
    (hreach : Reachable params assets) (op : FileOp) (writes : ℕ) :
    Recovers params assets op writes ↔
      (BetweenHeaders params assets op writes → EndKept params assets op) := by
  obtain ⟨log, live, hassets⟩ := hreach.backed
  by_cases hbetween : BetweenHeaders params assets op writes
  · have hiff : Recovers params assets op writes ↔ EndKept params assets op := by
      cases op with
      | commit =>
        cases hgoes : (assets.commitLoop params).failed with
        | true => exact iff_of_true (hassets.recovers_failed hgoes hbetween) (.inl hgoes)
        | false =>
          rw [hassets.recovers_committed_iff hgoes hbetween]
          unfold EndKept
          rw [hgoes]
          exact ⟨.inr, fun hkept => hkept.resolve_left Bool.false_ne_true⟩
      | rollBack block => exact hassets.recovers_rolledBack_iff hbetween
    rw [hiff]
    exact ⟨fun hkept _ => hkept, fun hkept => hkept hbetween⟩
  refine iff_of_true ?_ fun hyes => absurd hyes hbetween
  by_cases hall : (assets.diskTrace params op).length ≤ writes
  · exact hassets.recovers_all hall
  obtain ⟨rows, tail, htrace, htail, hrows⟩ := hassets.diskTrace_split params op
  have hwrites : writes ≤ rows.length := by
    unfold BetweenHeaders at hbetween
    rw [htrace, List.length_append] at hbetween hall
    omega
  refine hassets.recovers_rows fun write hwrite => hrows write ?_
  rw [htrace, List.take_append_of_le_length hwrites] at hwrite
  exact List.mem_of_mem_take hwrite

/-- An asset in a block of its own. -/
def firstIssue : Issue where
  txid := 5
  offset := 1
  script := []
  specialScript := []
  updateMempool := true

def issued : AssetDB :=
  (initializeFrom .empty .empty).1.apply .defaults (.insertAsset firstIssue 100 [] 1)

theorem issued_reachable : Reachable .defaults issued :=
  .apply _ .start

theorem issued_crash_recovers_iff : Recovers .defaults issued .commit 2 ↔
      (BetweenHeaders .defaults issued .commit 2 → EndKept .defaults issued .commit) :=
  entity_crash_recovers_iff .defaults issued_reachable .commit 2

/-- The commit of the asset stops behind the ledger header.  The ledger stands for
one row, the database for none, and the sizes differ. -/
theorem crash_behind_ledger_header :
    ¬ ∀ (params : ChainParams) (assets : AssetDB) (op : FileOp) (writes : ℕ),
      Reachable params assets → Recovers params assets op writes := by
  intro hrecovers
  have hopened := (hrecovers .defaults issued .commit 2 issued_reachable).1
  revert hopened
  decide +kernel

end AssetDB

end Amberchain.Entity
