import Amberchain.Entity.SupplyRuns

/-!
# A rollback undoes commits

Back at the block where a database with an empty mempool stood, a rollback of
blocks on top of it leaves a database that answers every question as before.
-/

namespace Amberchain.Entity

open LinkedLog

def Op.Accepted (params : ChainParams) (assets : AssetDB) : Op → Prop
  | .insertEntity issue entityType =>
    (assets.insertEntity params issue entityType).2.toBool = true ∧
      Details.verify issue.script = true
  | .insertAsset issue quantity name multiple =>
    (assets.insertAsset params issue quantity name multiple).2 = none ∧
      Details.verify issue.script = true
  | .insertAssetFollowOn issue quantity originalTxid =>
    (assets.insertAssetFollowOn params issue quantity originalTxid).2 = none ∧
      Details.verify issue.script = true
  | _ => False

namespace AssetDB

/-- A database after some accepted insertions. -/
inductive Filled (params : ChainParams) (allowed : AssetDB → Op → Prop) (start : AssetDB) :
    AssetDB → Prop where
  | none : Filled params allowed start start
  | insert {assets : AssetDB} (op : Op) (hfilled : Filled params allowed start assets)
    (haccepted : op.Accepted params assets) (hop : allowed assets op) :
    Filled params allowed start (assets.apply params op)

/-- A database after some blocks, each of accepted insertions and a commit that goes
through. -/
inductive Blocks (params : ChainParams) (allowed : AssetDB → Op → Prop) (start : AssetDB) :
    AssetDB → Prop where
  | none : Blocks params allowed start start
  | block {before filled : AssetDB} (hbefore : Blocks params allowed start before)
    (hfilled : Filled params allowed before filled) (hcommit : allowed filled .commit)
    (hok : (filled.commit params).2 = none) : Blocks params allowed start (filled.commit params).1

/-- The database answers as it did before. -/
structure Restored (start restored : AssetDB) : Prop where
  byTxID : ∀ txid, restored.findEntityByTxID txid = start.findEntityByTxID txid
  byShortTxID : ∀ shortTxid,
    restored.findEntityByShortTxID shortTxid = start.findEntityByShortTxID shortTxid
  byRef : ∀ ref, restored.findEntityByRef ref = start.findEntityByRef ref
  byName : ∀ name, restored.findEntityByName name = start.findEntityByName name
  byFollowOn : ∀ txid, restored.findEntityByFollowOn txid = start.findEntityByFollowOn txid
  total : ∀ key row, start.getEntity key = some row →
    restored.getTotalQuantity row = start.getTotalQuantity row
  followOnTotal : ∀ txid row, start.findEntityByFollowOn txid = some row →
    restored.getTotalQuantity row = start.getTotalQuantity row
  block : restored.block = start.block
  prevPos : restored.prevPos = start.prevPos
  pos : restored.pos = start.pos

variable {params : ChainParams} {tracked : EntityKey → Prop} {log : Log}
  {pending : List Pending} {assets start after : AssetDB} {register : Register}

theorem chainQuantity_congr {entry : Placed} (hordered : Ordered params tracked log)
    (hstart : Chained start.ledger log) (hafter : Chained after.ledger log) (hentry : entry ∈ log) :
    ∀ fuel total, after.chainQuantity entry.row.firstPos fuel entry.pos total =
      start.chainQuantity entry.row.firstPos fuel entry.pos total := by
  induction log generalizing entry with
  | nil => cases hentry
  | cons newest older ih =>
    have hsuffix : older <:+ newest :: older := List.suffix_cons newest older
    have holder := hordered.of_suffix hsuffix
    rcases List.mem_cons.mp hentry with rfl | hmem
    · intro fuel total
      have hkind := hordered.kind
      cases fuel with
      | zero => rfl
      | succ fuel =>
        unfold chainQuantity
        simp only [hstart.getRow_eq hentry, hafter.getRow_eq hentry]
        by_cases hfirst : entry.pos = entry.row.firstPos
        · rw [if_pos hfirst, if_pos hfirst]
        rw [if_neg hfirst, if_neg hfirst]
        rcases hkind with ⟨_, hself⟩ | ⟨_, first, hmemFirst, htype, hpos, hlast⟩
        · exact absurd hself.symm hfirst
        -- the walk goes on at the newest older row of the same chain
        obtain ⟨next, hnext, hnextPos, hchain⟩ := holder.exists_head hmemFirst htype
        rw [hlast, ← hnextPos, ← hpos, ← hchain]
        split
        · rfl
        · exact ih holder (hstart.of_suffix hsuffix) (hafter.of_suffix hsuffix) hnext _ _
    exact ih holder (hstart.of_suffix hsuffix) (hafter.of_suffix hsuffix) hmem

theorem Indexed.mem_of_getEntity (hassets : Indexed params (fun _ => True) assets log [])
    {key : EntityKey} {row : EntityRow} (hfound : assets.getEntity key = some row) :
    ∃ entry ∈ log, key ∈ entry.row.keys params ∧
      row = { entry.row with chainPos := head (ledgerView params) log entry.pos } := by
  rcases @Indexed.getEntity_cases _ _ _ _ key _ hassets trivial with
    ⟨entry, hentry, hkey, hget⟩ | ⟨before, issue, after, hsplit, _⟩ | ⟨hnone, _⟩
  · rw [hfound] at hget
    exact ⟨entry, hentry, hkey, Option.some.inj hget⟩
  · exact absurd hsplit.symm (by simp)
  rw [hfound] at hnone
  cases hnone

/-- Two databases that are indexed by one log, without mempools, give the same
answers. -/
theorem Indexed.restored (hstart : Indexed params (fun _ => True) start log [])
    (hafter : Indexed params (fun _ => True) after log [])
    (hblock : after.block = start.block) : Restored start after := by
  have hget : ∀ key, after.getEntity key = start.getEntity key := by
    intro key
    rcases @Indexed.getEntity_cases _ _ _ _ key _ hstart trivial with
      ⟨entry, hentry, hkey, hget⟩ | ⟨before, issue, after, hsplit, _⟩ | ⟨hnone, hlog, _⟩
    · rw [hget, hafter.getEntity_log hentry trivial hkey]
    · exact absurd hsplit.symm (by simp)
    · rw [hnone, hafter.getEntity_none trivial hlog fun _ hmem => absurd hmem List.not_mem_nil]
  have hpool : ∀ firstPos, after.memPoolQuantity firstPos = start.memPoolQuantity firstPos := by
    intro firstPos
    rw [hafter.memPoolQuantity_eq, hstart.memPoolQuantity_eq]
  have htotal : ∀ (row : EntityRow) (entry : Placed), entry ∈ log →
      row.firstPos = entry.row.firstPos → row.chainPos = entry.pos →
      after.getTotalQuantity row = start.getTotalQuantity row := by
    intro row entry hentry hfirst hchain
    unfold getTotalQuantity
    rw [hpool, hfirst, hchain]
    split
    · rfl
    exact chainQuantity_congr hstart.ordered hstart.backed.chained hafter.backed.chained hentry _ _
  have hfollowOn : ∀ txid, after.findEntityByFollowOn txid = start.findEntityByFollowOn txid ∧
      ∀ row, start.findEntityByFollowOn txid = some row →
        after.getTotalQuantity row = start.getTotalQuantity row := by
    intro txid
    unfold findEntityByFollowOn
    rw [hget]
    cases hfound : start.getEntity (followOnKey txid) with
    | none => exact ⟨rfl, fun row hrow => by cases hrow⟩
    | some row =>
      obtain ⟨entry, hentry, _, rfl⟩ := hstart.mem_of_getEntity hfound
      obtain ⟨first, hfirst, -, hpos⟩ := hstart.ordered.exists_start hentry
      have hbounds := hstart.backed.chained.pos_pos hfirst
      rw [Option.map_some, Option.map_some]
      rw [← hpos, if_neg (by omega), if_neg (by omega), hstart.backed.chained.getRow_eq hfirst,
        hafter.backed.chained.getRow_eq hfirst]
      refine ⟨rfl, fun row hrow => ?_⟩
      rw [← Option.some.inj hrow]
      exact htotal first.row first hfirst rfl (hstart.ordered.chainPos_eq hfirst)
  refine ⟨fun txid => ?_, fun _ => hget _, fun _ => hget _, fun _ => hget _,
    fun txid => (hfollowOn txid).1, ?_, fun txid => (hfollowOn txid).2, hblock, ?_, ?_⟩
  · unfold findEntityByTxID
    rw [hget, hget]
  · intro key row hfound
    obtain ⟨entry, hentry, _, rfl⟩ := hstart.mem_of_getEntity hfound
    obtain ⟨newest, hnewest, hpos, hfirst⟩ := hstart.ordered.exists_chainPos hentry
    exact htotal _ newest hnewest hfirst.symm hpos.symm
  · rw [hafter.backed.prevPos, hstart.backed.prevPos]
  rw [hafter.pos, hstart.pos]

/-- Accepted insertions leave the log and the block as they are. -/
theorem Indexed.filled (hassets : Indexed params tracked assets log pending)
    (hcovers : ∀ key : EntityKey, key.type.isTxid = true → tracked key)
    (hregister : Represents register log pending)
    (hfilled : Filled params (Sound params tracked) assets after) :
    ∃ register pending, Indexed params tracked after log pending ∧
      Represents register log pending ∧ after.block = assets.block := by
  induction hfilled with
  | none => exact ⟨register, pending, hassets, hregister, rfl⟩
  | @insert before op _ haccepted hop ih =>
    obtain ⟨register, pending, hbefore, hrepresents, hblock⟩ := ih
    have hadds : ∀ result, before.Adds result → result.block = assets.block := by
      rintro result (rfl | ⟨rows, _, rfl⟩)
      · exact hblock
      · exact hblock
    cases op with
    | insertEntity issue entityType =>
      obtain ⟨pending', hnext, hafter⟩ := hbefore.step_insertEntity hrepresents issue entityType
      exact ⟨_, pending', hnext, hafter, hadds _ (adds_insertEntity issue entityType)⟩
    | insertAsset issue quantity name multiple =>
      obtain ⟨pending', hnext, hafter⟩ :=
        hbefore.step_insertAsset hrepresents issue quantity name multiple
      exact ⟨_, pending', hnext, hafter, hadds _ (adds_insertKeys rfl rfl issue.updateMempool)⟩
    | insertAssetFollowOn issue quantity originalTxid =>
      obtain ⟨pending', hnext, hafter⟩ :=
        hbefore.step_insertAssetFollowOn hcovers hrepresents issue quantity originalTxid hop
      exact ⟨_, pending', hnext, hafter,
        hadds _ (adds_insertAssetFollowOn issue quantity originalTxid)⟩
    | commit => exact absurd haccepted id
    | rollBack block => exact absurd haccepted id
    | clearMemPool => exact absurd haccepted id
    | restart => exact absurd haccepted id

theorem Indexed.blocks (hassets : Indexed params tracked assets log [])
    (hcovers : ∀ key : EntityKey, key.type.isTxid = true → tracked key)
    (hregister : Represents register log [])
    (hblocks : Blocks params (Sound params tracked) assets after) :
    ∃ register placed, Indexed params tracked after (placed ++ log) [] ∧
      Represents register (placed ++ log) [] ∧ assets.block ≤ after.block ∧
      ∀ entry ∈ placed, assets.block < entry.row.block := by
  induction hblocks with
  | none =>
    exact ⟨register, [], hassets, hregister, Int.le_refl _, fun _ hentry =>
      absurd hentry List.not_mem_nil⟩
  | @block before filled _ hfilled hcommit hok ih =>
    obtain ⟨register, placed, hbefore, hrepresents, hle, hhigher⟩ := ih
    obtain ⟨register', pending, hassets', hrepresents', hsame⟩ :=
      hbefore.filled hcovers hrepresents hfilled
    rcases hcommit with hwritten | ⟨row, hrow, hnot⟩
    · obtain ⟨newest, hnext, _, hafter, hblock, hreceived⟩ :=
        hassets'.commit_whole hcovers hrepresents' hwritten
      refine ⟨register'.confirm, newest ++ placed, ?_, ?_, ?_, ?_⟩
      · rw [List.append_assoc]
        exact hnext
      · rw [List.append_assoc]
        exact hafter
      · omega
      intro entry hentry
      rcases List.mem_append.mp hentry with hnew | hold
      · rw [hreceived entry hnew]
        omega
      · exact hhigher entry hold
    obtain ⟨_, herror⟩ := @Indexed.commit_first params _ _ _ _ hassets' _ hrow hnot
    rw [hok] at herror
    cases herror

/-- Cut at the block of the older rows, the newer rows are gone. -/
theorem upTo_append {placed : Log} {block : ℤ} (hnew : ∀ entry ∈ placed, block < entry.row.block)
    (hold : ∀ entry ∈ log, entry.row.block ≤ block) : Log.upTo (placed ++ log) block = log := by
  induction placed with
  | nil =>
    cases log with
    | nil => rfl
    | cons entry older =>
      exact Log.upTo_cons_of_le (hold entry (.head _))
  | cons entry rest ih =>
    rw [List.cons_append, Log.upTo_cons_of_lt (hnew entry (.head _))]
    exact ih fun other hother => hnew other (.tail _ hother)

/-- Blocks on top of a sound run, and a rollback to its block: the database answers
as it did before them. -/
theorem rollBack_restores (hrun : SoundRun params (Sound params fun _ => True) start register)
    (hempty : start.memPool = [])
    (hblocks : Blocks params (Sound params fun _ => True) start after) :
    Restored start (after.rollBack params start.block).1 := by
  have hcovers : ∀ key : EntityKey, key.type.isTxid = true → True := fun _ _ => trivial
  obtain ⟨log, pending, hstart, hregister⟩ := hrun.indexed hcovers fun _ _ => id
  have hsame : ({ start with memPool := [] } : AssetDB) = start := by rw [← hempty]
  have hclear := hstart.emptied
  rw [hsame] at hclear
  obtain ⟨-, placed, hafter, _, _, hhigher⟩ := hclear.blocks hcovers hregister.clear hblocks
  have hcut := upTo_append hhigher hstart.backed.received
  obtain ⟨hrolled, _, hblock⟩ := hafter.rollBack hcovers start.block
  rw [hcut] at hrolled
  exact hclear.restored hrolled hblock

instance (assets : AssetDB) (issue : Issue) (originalTxid : Hash256) :
    Decidable (CarriesOwnKeys params (fun _ => True) assets issue originalTxid) :=
  inferInstanceAs (Decidable (∀ key ∈ (assets.followOnRow issue 0 EntityRow.zero).otherKeys params,
    True → ∀ other ∈ assets.getEntity key, _))

/-- The asset in a block of its own, and more of it in the next one. -/
theorem stock_restores : Restored (runOps .defaults [issueStock, .commit]).1
      ((runOps .defaults [issueStock, .commit, moreStock, .commit]).1.rollBack .defaults
        (runOps .defaults [issueStock, .commit]).1.block).1 := by
  have hissue : Sound .defaults (fun _ => True) (runOps .defaults []).1 issueStock := by
    unfold issueStock Sound
    decide +kernel
  have hcommit : Sound .defaults (fun _ => True) (runOps .defaults [issueStock]).1 .commit :=
    .inl (by unfold CanBeWritten; decide +kernel)
  have hmore : Sound .defaults (fun _ => True) (runOps .defaults [issueStock, .commit]).1
      moreStock :=
    ⟨by decide +kernel, by decide +kernel, by decide +kernel⟩
  have haccepted : moreStock.Accepted .defaults (runOps .defaults [issueStock, .commit]).1 := by
    unfold moreStock Op.Accepted
    decide +kernel
  have hagain : Sound .defaults (fun _ => True)
      (runOps .defaults [issueStock, .commit, moreStock]).1 .commit :=
    .inl (by unfold CanBeWritten; decide +kernel)
  have hfirst := @SoundRun.apply .defaults (Sound .defaults fun _ => True) _ _ issueStock .start
    hissue
  exact rollBack_restores (.apply .commit hfirst hcommit) (by decide +kernel)
    (.block .none (.insert moreStock .none haccepted hmore) hagain (by decide +kernel))

theorem upTo_upTo (log : Log) {low high : ℤ} (hle : low ≤ high) :
    (log.upTo high).upTo low = log.upTo low := by
  induction log with
  | nil => rfl
  | cons entry older ih =>
    by_cases habove : high < entry.row.block
    · rw [Log.upTo_cons_of_lt habove, Log.upTo_cons_of_lt (hle.trans_lt habove), ih]
    rw [Log.upTo_cons_of_le (not_lt.mp habove)]

def namedStock : Op :=
  .insertAsset (issueOf feed 2 []) 50 [0x62] 1

def borrowedName : Op :=
  .insertAssetFollowOn (issueOf (7 <<< 128) 3 (Details.specialParam Details.MC_ENT_SPRM_NAME [0x62]))
    30 stock

/-- The rollback of the follow-on deletes the name of the second asset. -/
theorem borrowed_name_is_lost :
    ¬ ∀ (params : ChainParams) (start after : AssetDB), Reachable params start →
      start.memPool = [] → Blocks params (fun _ _ => True) start after →
        Restored start (after.rollBack params start.block).1 := by
  intro hrestores
  have hreach : Reachable .defaults (runOps .defaults [issueStock, namedStock, .commit]).1 :=
    .apply .commit (.apply namedStock (.apply issueStock .start))
  have haccepted :
      borrowedName.Accepted .defaults (runOps .defaults [issueStock, namedStock, .commit]).1 := by
    unfold borrowedName Op.Accepted
    decide +kernel
  have hfilled := @Filled.insert .defaults (fun _ _ => True)
    (runOps .defaults [issueStock, namedStock, .commit]).1 _ borrowedName .none haccepted trivial
  have hname := (hrestores .defaults _ _ hreach (by decide +kernel)
    (.block .none hfilled trivial (by decide +kernel))).byName [0x62]
  revert hname
  decide +kernel

end AssetDB

end Amberchain.Entity
