import Amberchain.Entity.CommitIssues

/-!
# Sound runs keep the index

Commits, rollbacks, mempool clears and restarts keep the database the index of its
log, and do to the log what they do to the register.
-/

namespace Amberchain.Entity

open LinkedLog

namespace AssetDB

variable {params : ChainParams} {tracked : EntityKey → Prop} {log live : Log}
  {pending : List Pending} {assets : AssetDB} {register : Register}

theorem rows_commit_header (db : EntityDB) (batch : List EntityWrite) (header : EntityHeader) :
    (db.commit (batch ++ [.header header])).rows = (db.commit batch).rows := by
  rw [EntityDB.commit_append]
  rfl

theorem Indexed.clearMemPool_eq (hassets : Indexed params tracked assets log pending) :
    assets.clearMemPool = { assets with memPool := [] } := by
  unfold AssetDB.clearMemPool
  split
  · rename_i hempty
    rw [← hempty]
  rw [hassets.backed.ledgerHeader, Option.getD_some]
  simp only [hassets.backed.chained.behind_lastPos]
  rw [← hassets.pos, ← hassets.backed.prevPos]

theorem Indexed.emptied (hassets : Indexed params tracked assets log pending) :
    Indexed params tracked { assets with memPool := [] } log [] := by
  have hback := hassets.backed
  exact ⟨⟨hback.dbHeader, hback.ledgerHeader, hback.chained, hback.received, hback.suffix,
      hback.prevPos, hback.free, fun _ hrow => absurd hrow List.not_mem_nil,
      fun _ hrow => by cases hrow⟩,
    hassets.batch, hassets.pos, hassets.ordered, hassets.index, rfl, queue_nil⟩

theorem Represents.clear (hregister : Represents register log pending) :
    Represents register.clear log [] :=
  ⟨hregister.confirmed, rfl⟩

theorem Indexed.reopened_eq (hassets : Indexed params tracked assets log pending) :
    initializeFrom assets.db assets.ledger = ({ assets with memPool := [] }, none) := by
  rw [hassets.backed.initializeFrom_eq, ← hassets.pos, ← hassets.backed.prevPos, ← hassets.batch]

/-- A commit that goes through turns the pending issues into the newest rows of the
log. -/
theorem Indexed.commit_whole (hassets : Indexed params tracked assets log pending)
    (hcovers : ∀ key : EntityKey, key.type.isTxid = true → tracked key)
    (hregister : Represents register log pending)
    (hwritten : ∀ row ∈ assets.memPool, CanBeWritten row) :
    ∃ placed : Log, Indexed params tracked (assets.commit params).1 (placed ++ log) [] ∧
      (assets.commit params).2 = none ∧ Represents register.confirm (placed ++ log) [] ∧
      (assets.commit params).1.block = assets.block + 1 ∧
      ∀ entry ∈ placed, entry.row.block = assets.block + 1 := by
  obtain ⟨loop, placed, hdone⟩ := hassets.commitsTo hcovers hwritten
  have hloop : assets.commitLoop params = loop := by
    rw [commitLoop_eq, hassets.memPool, hdone.loop_eq]
  have hgoes : (assets.commitLoop params).failed = false := by rw [hloop, hdone.goes]
  obtain ⟨hbacked, hok⟩ := hassets.backed.commit_placed hgoes (hloop ▸ hdone.kept)
    (hloop ▸ hdone.placing)
  refine ⟨placed, ?_, hok, ⟨?_, rfl⟩, ?_, hdone.placing.received⟩
  · have hcommit := @commit_eq params assets
    dsimp only at hcommit
    rw [hgoes, if_neg Bool.false_ne_true, hloop] at hcommit
    rw [hcommit] at hbacked ⊢
    refine ⟨hbacked, rfl, hdone.nextPos, hdone.ordered, ?_, rfl, queue_nil⟩
    rw [rows_commit_header, hdone.kept.db]
    exact hdone.index
  · show register.pending.reverse ++ register.confirmed = _
    rw [hregister.pending, hregister.confirmed, hdone.issues]
  rw [commit_eq]
  dsimp only
  rw [hgoes, if_neg Bool.false_ne_true, hloop, hdone.kept.block]

theorem commitUpTo_failed (hfailed : (assets.commitUpTo params 1).failed = true) :
    ∀ rounds, assets.commitUpTo params (rounds + 1) = assets.commitUpTo params 1 := by
  intro rounds
  induction rounds with
  | zero => rfl
  | succ rounds ih =>
    rw [commitUpTo_succ, ih, commitRow_failed hfailed]

/-- A commit whose first row cannot be written drops the mempool and does nothing
else. -/
theorem Indexed.commit_first (hassets : Indexed params tracked assets log pending) {row : EntityRow}
    (hrow : row ∈ assets.memPool.head?) (hwritten : ¬ CanBeWritten row) :
    Indexed params tracked (assets.commit params).1 log [] ∧
      (assets.commit params).2 = some .internalError := by
  have hget : assets.memPool[0]? = some row := by
    rw [← List.head?_eq_getElem?]
    exact hrow
  have htype := hassets.backed.first row hrow
  have hone : (assets.commitUpTo params 1).failed = true ∧
      (assets.commitUpTo params 1).assets.batch = [] := by
    have hnext : assets.commitUpTo params 1 = commitTxid params ⟨assets, 0, false⟩ 0 row := by
      rw [commitUpTo_succ]
      exact commitRow_txid rfl hget htype
    rw [hnext, commitTxid_eq]
    by_cases hoffset : row.offset < 0
    · rw [if_pos hoffset]
      exact ⟨rfl, hassets.batch⟩
    have hscript : MC_ENT_SCRIPT_ALLOC_SIZE < row.script.length := by
      by_contra hfits
      exact hwritten ⟨Int.not_lt.mp hoffset, Nat.not_lt.mp hfits⟩
    rw [if_neg hoffset, if_pos hscript]
    exact ⟨rfl, hassets.batch⟩
  have hloop : assets.commitLoop params = assets.commitUpTo params 1 := by
    obtain ⟨rounds, hrounds⟩ : ∃ rounds, assets.memPool.length = rounds + 1 :=
      Nat.exists_eq_succ_of_ne_zero (Nat.ne_of_gt (List.getElem?_eq_some_iff.mp hget).1)
    rw [commitLoop_eq, hrounds, commitUpTo_failed hone.1]
  have hfailed : (assets.commitLoop params).failed = true := by rw [hloop, hone.1]
  have hbacked := hassets.backed.commit_failed_backed hfailed
  rw [hassets.backed.commit_failed hfailed] at hbacked ⊢
  refine ⟨⟨hbacked, rfl, rfl, hassets.ordered, ?_, rfl, queue_nil⟩, rfl⟩
  rw [hloop, hone.2]
  exact hassets.index

theorem undoWrites_entity {row : EntityRow} (htype : row.key.type = .txid) :
    assets.undoWrites params row = ((row.keys params).map .delete, true) := by
  have hfollow : row.key.type.isFollowOn = false := by rw [htype]; rfl
  unfold undoWrites EntityRow.keys
  rw [hfollow]
  rfl

/-- What a rollback writes for a follow-on, when its asset has a database row. -/
theorem undoWrites_followOn {row genesis : EntityRow} {dbRow : EntityDBRow}
    (htype : row.key.type = .followOnTxid) (hgenesis : assets.ledger.getRow row.firstPos = genesis)
    (hgenesisType : genesis.key.type = .txid) (hrow : assets.db.rows genesis.key = some dbRow) :
    assets.undoWrites params row = ((row.key :: row.otherKeys params).map .delete ++
        (genesis.keys params).map fun key => .row key { dbRow with chainPos := row.lastPos },
        true) := by
  have hfollow : row.key.type.isFollowOn = true := by rw [htype]; rfl
  have hkey : txidKey genesis.key.key = genesis.key := by
    unfold txidKey
    rw [← hgenesisType]
  have hkeys : genesis.keys params = genesis.key :: genesis.otherKeys params := by
    unfold EntityRow.keys
    rw [hgenesisType]
    rfl
  unfold undoWrites
  dsimp only
  rw [hfollow, hgenesis, hkey, hrow, hkeys]
  rfl

section

variable (hassets : Indexed params tracked assets log pending)
  (hcovers : ∀ key : EntityKey, key.type.isTxid = true → tracked key) (block : ℤ)

include hassets hcovers block

/-- The loop takes the newest rows back one by one, and the index with them. -/
theorem Indexed.rollBackLoop_spec :
    ∀ (live : Log), live <:+ log → ∀ fuel batch, live.lastPos.toNat < fuel →
      Indexes params tracked (assets.db.commit batch).rows live →
      (assets.rollBackLoop params block fuel live.lastPos batch).2.2 = true ∧ Indexes params tracked
          (assets.db.commit (assets.rollBackLoop params block fuel live.lastPos batch).1).rows
          (live.upTo block) := by
  intro live
  induction live with
  | nil =>
    intro _ fuel batch _ hindex
    cases fuel with
    | zero => exact ⟨rfl, hindex⟩
    | succ fuel => exact ⟨rfl, hindex⟩
  | cons entry older ih =>
    intro hsuffix fuel batch hfuel hindex
    have hchained := hassets.backed.chained.of_suffix hsuffix
    have hordered := hassets.ordered.of_suffix hsuffix
    have hrow := hchained.getRow_eq (.head _)
    have hlow := hchained.pos_pos (.head _)
    cases fuel with
    | zero => exact absurd hfuel (Nat.not_lt_zero _)
    | succ fuel =>
      rw [Log.lastPos_cons] at hfuel ⊢
      unfold rollBackLoop
      rw [if_neg (by omega), hrow]
      by_cases hold : entry.row.block ≤ block
      · rw [if_pos hold, Log.upTo_cons_of_le hold]
        exact ⟨rfl, hindex⟩
      rw [if_neg hold, Log.upTo_cons_of_lt (Int.not_le.mp hold)]
      have hprev : entry.row.prevPos = Log.lastPos older := by
        cases hchained with
        | cons _ hprev _ _ _ => exact hprev
      have hless : (Log.lastPos older).toNat < fuel := by
        cases older with
        | nil =>
          show 0 < fuel
          omega
        | cons before rest =>
          have hlt := hchained.pos_lt (.head _)
          show before.pos.toNat < fuel
          omega
      have hundo : (assets.undoWrites params entry.row).2 = true ∧
          Indexes params tracked
            (assets.db.commit (batch ++ (assets.undoWrites params entry.row).1)).rows older := by
        cases hordered with
        | cons hlinks holder =>
          rcases hlinks.kind with ⟨htype, _⟩ | ⟨htype, start, hstart, hstartType, hpos, hlast⟩
          · rw [undoWrites_entity htype, EntityDB.commit_append, rows_commit_delete]
            exact ⟨rfl, hindex.remove_start holder hlinks htype fun _ => Iff.rfl⟩
          have hstartLog : start ∈ log := hsuffix.subset (.tail _ hstart)
          have hstartRow := hassets.backed.chained.getRow_eq hstartLog
          have htracked : tracked start.row.key := hcovers _ (by rw [hstartType]; rfl)
          have hdbRow := hassets.index start.row.key htracked
          rw [hassets.ordered.indexRow_eq hstartLog htracked start.row.key_mem_keys] at hdbRow
          rw [undoWrites_followOn htype (by rw [← hpos, hstartRow]) hstartType hdbRow,
            EntityDB.commit_append, EntityDB.commit_append, rows_commit_row,
            rows_commit_delete, hlast]
          exact ⟨rfl, hindex.remove_followOn holder hlinks htype hstart hpos⟩
      dsimp only
      rw [if_pos hundo.1, hprev]
      exact ih ((List.suffix_cons entry older).trans hsuffix) fuel _ hless hundo.2

theorem Indexed.rollBack :
    Indexed params tracked (assets.rollBack params block).1 (log.upTo block) [] ∧
      (assets.rollBack params block).2 = none ∧ (assets.rollBack params block).1.block = block := by
  have hclear := hassets.clearMemPool_eq
  have hempty := hassets.emptied
  have hindex : Indexes params tracked
      (({ assets with memPool := [] } : AssetDB).db.commit
        ({ assets with memPool := [] } : AssetDB).batch).rows log := by
    rw [hempty.batch]
    exact hempty.index
  obtain ⟨hfound, hrows⟩ := hempty.rollBackLoop_spec hcovers block log List.suffix_rfl
    (log.lastPos.toNat + 1) _ (Nat.lt_succ_self _) hindex
  rw [← hempty.backed.prevPos, ← hclear] at hfound hrows
  have hback := @rollBack_eq params assets block
  rw [if_pos hfound] at hback
  have hcut := hassets.backed.chained.of_suffix (log.upTo_suffix block)
  rcases hassets.backed.rollBack params block with
    ⟨live', hlive, hbacked, _⟩ | ⟨_, _, herror⟩
  · have hsame : live' = log := by
      refine hlive.chained.eq_of_lastPos hlive.suffix ?_
      rw [← hlive.prevPos, hclear]
      exact hassets.backed.prevPos
    rw [hsame] at hbacked
    have hprevPos := hbacked.prevPos
    rw [hback] at hbacked hprevPos ⊢
    refine ⟨⟨hbacked, rfl, ?_, hassets.ordered.of_suffix (log.upTo_suffix block), ?_, ?_, ?_⟩,
      rfl, rfl⟩
    · dsimp only at hprevPos ⊢
      rw [hprevPos, hclear]
      exact hcut.behind_lastPos
    · rw [rows_commit_header]
      exact hrows
    · rw [hclear]
      rfl
    · exact queue_nil
  rw [hback] at herror
  cases herror

end

theorem Indexed.step (hassets : Indexed params tracked assets log pending)
    (hcovers : ∀ key : EntityKey, key.type.isTxid = true → tracked key)
    (hregister : Represents register log pending) (op : Op)
    (hsound : Sound params tracked assets op) :
    ∃ log pending, Indexed params tracked (assets.apply params op) log pending ∧
      Represents (register.after params assets op) log pending := by
  cases op with
  | insertEntity issue entityType =>
    exact ⟨log, hassets.step_insertEntity hregister issue entityType⟩
  | insertAsset issue quantity name multiple =>
    exact ⟨log, hassets.step_insertAsset hregister issue quantity name multiple⟩
  | insertAssetFollowOn issue quantity originalTxid =>
    exact ⟨log, hassets.step_insertAssetFollowOn hcovers hregister issue quantity originalTxid
      hsound⟩
  | commit =>
    rcases hsound with hwritten | ⟨row, hrow, hnot⟩
    · obtain ⟨placed, hnext, hok, hrepresents, _⟩ := hassets.commit_whole hcovers hregister hwritten
      refine ⟨placed ++ log, [], hnext, ?_⟩
      show Represents (if (assets.commit params).2 = none then _ else _) _ _
      rw [if_pos hok]
      exact hrepresents
    obtain ⟨hnext, herror⟩ := @Indexed.commit_first params _ _ _ _ hassets _ hrow hnot
    refine ⟨log, [], hnext, ?_⟩
    show Represents (if (assets.commit params).2 = none then _ else _) _ _
    rw [herror]
    exact hregister.clear
  | rollBack block =>
    obtain ⟨hnext, _⟩ := hassets.rollBack hcovers block
    refine ⟨_, _, hnext, ⟨?_, rfl⟩⟩
    show register.confirmed.filter _ = _
    rw [hregister.confirmed, hassets.ordered.acceptedLog_upTo hassets.backed.chained]
  | clearMemPool =>
    refine ⟨log, [], ?_, hregister.clear⟩
    show Indexed params tracked assets.clearMemPool log []
    rw [hassets.clearMemPool_eq]
    exact hassets.emptied
  | restart =>
    refine ⟨log, [], ?_, hregister.clear⟩
    show Indexed params tracked (initializeFrom assets.db assets.ledger).1 log []
    rw [hassets.reopened_eq]
    exact hassets.emptied

/-- The states and registers of runs from empty files whose steps are all allowed. -/
inductive SoundRun (params : ChainParams) (allowed : AssetDB → Op → Prop) :
    AssetDB → Register → Prop where
  | start : SoundRun params allowed (initializeFrom .empty .empty).1 .empty
  | apply {assets : AssetDB} {register : Register} (op : Op)
    (hrun : SoundRun params allowed assets register) (hop : allowed assets op) :
    SoundRun params allowed (assets.apply params op) (register.after params assets op)

theorem indexed_start : Indexed params tracked (initializeFrom .empty .empty).1 [] [] where
  backed := backed_start
  batch := rfl
  pos := rfl
  ordered := .nil
  index := fun _ _ => rfl
  memPool := rfl
  queue := queue_nil

theorem SoundRun.indexed {allowed : AssetDB → Op → Prop}
    (hrun : SoundRun params allowed assets register)
    (hcovers : ∀ key : EntityKey, key.type.isTxid = true → tracked key)
    (hallowed : ∀ assets op, allowed assets op → Sound params tracked assets op) :
    ∃ log pending, Indexed params tracked assets log pending ∧ Represents register log pending := by
  induction hrun with
  | start => exact ⟨[], [], indexed_start, rfl, rfl⟩
  | apply op _ hop ih =>
    obtain ⟨log, pending, hindexed, hregister⟩ := ih
    exact hindexed.step hcovers hregister op (hallowed _ op hop)

end AssetDB

end Amberchain.Entity
