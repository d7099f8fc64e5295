import Amberchain.Entity.CommitIndexed

/-!
# The issues of a commit

One issue after the other takes its place in front of the log.  What is special
about an entity, about a follow-on of a confirmed asset and about one of a pending
asset is where its links come from; the rest is the same for all.
-/

namespace Amberchain.Entity

open LinkedLog

namespace AssetDB

variable {params : ChainParams} {tracked : EntityKey → Prop} {log placed : Log}
  {pending done rest : List Pending} {issue : Pending} {assets : AssetDB} {loop : CommitLoop}

/-- The mempool once the next issue is placed: what comes later stays, and the rows of the assets
before it lead to the newest objects of their chains. -/
structure Moved (params : ChainParams) (log placed : Log) (done : List Pending) (issue : Pending)
    (loop : CommitLoop) : Prop where
  later : ∀ i, (poolRows params done).length < i →
    (loop.placedMemPool issue.row (poolRows params done).length)[i]? = loop.assets.memPool[i]?
  starts : ∀ first start rest, done = first ++ start :: rest → start.row.key.type = .txid →
    ∃ entry ∈ placed, entry.row.unlinked = start.row.unlinked ∧
      (loop.placedMemPool issue.row (poolRows params done).length)[(poolRows params first).length]? =
        some { entry.row with
          chainPos := head (ledgerView params) (loop.entry issue :: (placed ++ log)) entry.pos }

theorem getElem?_placedMemPool_self {row : EntityRow} {index : ℕ}
    (hindex : index < loop.assets.memPool.length) :
    (loop.placedMemPool row index)[index]? = some (loop.placedRow row) := by
  unfold CommitLoop.placedMemPool
  split
  · rw [List.getElem?_set_self (by rw [List.length_set]; exact hindex)]
  rw [List.getElem?_set_self hindex]

/-- An issue whose links are right takes its place in front of the log. -/
theorem CommitsTo.extend (hdone : CommitsTo params tracked assets log done loop placed)
    (hassets : Indexed params tracked assets log pending)
    (hpending : pending = done ++ issue :: rest) (hwritten : CanBeWritten issue.row)
    (hread : loop.readable issue.row = true)
    (hlinks : Links params tracked (loop.entry issue) (placed ++ log))
    (hindex : ∀ others : List EntityKey, (∀ key ∈ others, key.type.isTxid = false) →
      (∀ key, key ∈ issue.row.key :: others ↔ key ∈ issue.row.keys params) → Indexes params tracked
        (assets.db.commit (loop.assets.batch ++
          rowWrites params { loop.assets with pos := loop.nextPos } (loop.placedRow issue.row)
            (loop.genesisRow issue.row) ++ others.map fun key =>
            .row key ⟨issue.row.block, loop.nextPos, loop.nextPos, issue.row.entityType⟩)).rows
        (loop.entry issue :: (placed ++ log)))
    (horiginal : txidAt (loop.entry issue :: (placed ++ log)) (loop.placedRow issue.row).firstPos =
      issue.original) (hchain : ∀ start ∈ log, start.row.key.type = .txid →
      ((issue.row.key.type.isFollowOn = true ∧ issue.row.firstPos = start.pos) ↔
        (loop.placedRow issue.row).firstPos = start.pos))
    (hmoved : Moved params log placed done issue loop) :
    ∃ loop', CommitsTo params tracked assets log (done ++ [issue]) loop'
      (loop.entry issue :: placed) := by
  have hwaits := hassets.queue done issue rest hpending
  have hmemPool := hassets.memPool
  rw [hpending] at hmemPool
  obtain ⟨others, hrows, _, htypes, hkeys⟩ := issue.rows_eq params
  have hlength : (issue.rows params).length = others.length + 1 := by
    rw [hrows, List.length_cons, List.length_map]
  have hfirst : loop.assets.memPool[(poolRows params done).length]? = some issue.row := by
    have hrow := hdone.row_eq hmemPool (show 0 < (issue.rows params).length by omega)
    rw [hrows] at hrow
    exact hrow
  have hinside := (List.getElem?_eq_some_iff.mp hfirst).1
  have hnext := hdone.next hmemPool hwaits.isTxid hwritten hread hrows htypes hmoved.later
  have hordered : Ordered params tracked (loop.entry issue :: (placed ++ log)) :=
    .cons hlinks hdone.ordered
  have hunlinked : (loop.placedRow issue.row).unlinked = issue.row.unlinked :=
    loop.placedRow_unlinked issue.row
  obtain ⟨hkept, hplacing⟩ := commitTxid_placing params hassets.backed hdone.kept hdone.placing hfirst
  rw [commitTxid_written hwritten hread] at hkept hplacing
  have hplaced := hplacing rfl
  refine ⟨_, hnext, rfl, ?_, ?_, hordered, ?_, ?_, rfl, ?_, ?_, ?_, ?_, ?_⟩
  · exact ⟨hkept.db, hkept.header, hkept.block, hkept.memPool, hkept.chained⟩
  · exact ⟨hplaced.chained, hplaced.prevPos, hplaced.free, hplaced.behind, hplaced.received,
      hplaced.above⟩
  · exact hindex others htypes hkeys
  · rw [List.cons_append, hordered.acceptedLog_cons, hdone.issues, List.map_append,
      List.reverse_append]
    show (loop.placedRow issue.row).accepted (txidAt _ (loop.placedRow issue.row).firstPos) :: _ = _
    rw [horiginal, EntityRow.accepted_of_unlinked hunlinked]
    rfl
  · rw [poolRows_append, poolRows_singleton, txidSize_append, txidSize_rows hwaits.isTxid,
      ← Int.add_assoc, hdone.bytes, ← EntityRow.size_of_unlinked hunlinked]
    rfl
  · intro start hstart htype
    rw [poolRows_append, poolRows_singleton, lastOfChain_append, hdone.predicted start hstart htype,
      hdone.bytes, lastOfChain_rows hwaits.isTxid]
    by_cases hjoins : (loop.entry issue).row.firstPos = start.pos
    · rw [if_pos ((hchain start hstart htype).mpr hjoins)]
      exact (head_cons_of_firstPos hjoins).symm
    rw [if_neg fun hboth => hjoins ((hchain start hstart htype).mp hboth)]
    exact (head_cons_of_firstPos_ne hjoins).symm
  · intro i hi
    rw [poolRows_append, poolRows_singleton, List.length_append] at hi
    rw [hmoved.later i (by omega), hdone.later i (by omega)]
  · intro entry hentry
    rcases List.mem_cons.mp hentry with rfl | hold
    · exact ⟨issue, List.mem_append_right _ (.head _), hunlinked⟩
    obtain ⟨source, hsource, hsame⟩ := hdone.sources entry hold
    exact ⟨source, List.mem_append_left _ hsource, hsame⟩
  intro first start rest' hsplit htype
  rcases List.eq_nil_or_concat rest' with rfl | ⟨before, last, rfl⟩
  · obtain ⟨rfl, hissue⟩ := List.append_inj' hsplit rfl
    cases hissue
    have hown := hordered.firstPos_eq (.head _)
      ((congrArg (fun key => key.type) (loop.placedRow_key issue.row)).trans htype)
    refine ⟨loop.entry issue, (.head _), hunlinked, ?_⟩
    rw [getElem?_placedMemPool_self hinside, List.cons_append, head_cons_of_firstPos hown]
    have hchainPos : (loop.placedRow issue.row).chainPos = loop.nextPos := if_pos hwaits.chainPos
    show some (loop.placedRow issue.row) =
      some { loop.placedRow issue.row with chainPos := loop.nextPos }
    rw [← hchainPos]
  rw [List.concat_eq_append, ← List.cons_append, ← List.append_assoc] at hsplit
  obtain ⟨hsame, _⟩ := List.append_inj' hsplit rfl
  obtain ⟨entry, hentry, hentryUnlinked, hrow⟩ := hmoved.starts first start before hsame htype
  exact ⟨entry, List.mem_cons_of_mem _ hentry, hentryUnlinked, hrow⟩

section

variable (hdone : CommitsTo params tracked assets log done loop placed)

include hdone

theorem CommitsTo.pos_lt
    {before : Placed} (hbefore : before ∈ placed ++ log) : before.pos < loop.nextPos := by
  rw [hdone.nextPos]
  exact hdone.placing.chained.pos_lt_endPos hbefore

theorem CommitsTo.fresh
    (hwaits : Waits params tracked log assets.pos done issue) :
    ∀ key ∈ (loop.placedRow issue.row).keys params, tracked key →
      ∀ before ∈ placed ++ log, key ∉ before.row.keys params := by
  intro key hkey htracked before hbefore
  rw [EntityRow.keys_of_unlinked (loop.placedRow_unlinked issue.row)] at hkey
  obtain ⟨hlog, hothers⟩ := hwaits.fresh key hkey htracked
  rcases List.mem_append.mp hbefore with hplaced | hold
  · obtain ⟨source, hsource, hsame⟩ := hdone.sources before hplaced
    rw [EntityRow.keys_of_unlinked hsame]
    exact hothers source hsource
  exact hlog before hold

/-- The next follow-on carries no key of another entity. -/
theorem CommitsTo.foreign
    (hcovers : ∀ key : EntityKey, key.type.isTxid = true → tracked key)
    (hwaits : Waits params tracked log assets.pos done issue)
    (htype : issue.row.key.type = .followOnTxid) {start : Placed} (hstart : start ∈ placed ++ log)
    (hkey : start.row.key = txidKey issue.original) :
    ∀ key ∈ (loop.placedRow issue.row).otherKeys params, tracked key →
      ∀ before ∈ placed ++ log, key ∈ before.row.keys params → before.pos = start.pos := by
  intro key hother htracked before hbefore hmem
  rw [EntityRow.otherKeys_of_unlinked (loop.placedRow_unlinked issue.row)] at hother
  obtain ⟨hlog, hothers⟩ := hwaits.foreign htype key hother htracked
  have hsame : before.row.key = start.row.key := by
    rw [hkey]
    rcases List.mem_append.mp hbefore with hplaced | hold
    · obtain ⟨source, hsource, hunlinked⟩ := hdone.sources before hplaced
      have hsourceKey : before.row.unlinked.key = source.row.unlinked.key := by rw [hunlinked]
      rw [EntityRow.keys_of_unlinked hunlinked] at hmem
      exact hsourceKey.trans (hothers source hsource hmem)
    · exact hlog before hold hmem
  have htracked' : tracked start.row.key := hcovers _ (by rw [hkey]; rfl)
  have hentry := hdone.ordered.wellFormed.eq_of_key hbefore hstart htracked'
    (hsame ▸ before.row.key_mem_keys) start.row.key_mem_keys
  rw [hentry]

end

theorem length_poolRows_lt {first : List Pending} {start : Pending}
    (hsplit : done = first ++ start :: rest) :
    (poolRows params first).length < (poolRows params done).length := by
  obtain ⟨others, hrows, _⟩ := start.rows_eq params
  rw [hsplit, poolRows_append, poolRows_cons, List.length_append, List.length_append, hrows,
    List.length_cons]
  omega

theorem CommitsTo.moved (hdone : CommitsTo params tracked assets log done loop placed)
    (hmemPool : loop.placedMemPool issue.row (poolRows params done).length =
      loop.assets.memPool.set (poolRows params done).length (loop.placedRow issue.row))
    (hapart : ∀ entry ∈ placed, (loop.entry issue).row.firstPos ≠ entry.pos) :
    Moved params log placed done issue loop := by
  refine ⟨fun i hi => ?_, fun first start rest hsplit htype => ?_⟩
  · rw [hmemPool, List.getElem?_set_ne (Nat.ne_of_lt hi)]
  obtain ⟨entry, hentry, hunlinked, hget⟩ := hdone.starts first start rest hsplit htype
  refine ⟨entry, hentry, hunlinked, ?_⟩
  rw [hmemPool, List.getElem?_set_ne (Nat.ne_of_gt (length_poolRows_lt hsplit)), hget,
    head_cons_of_firstPos_ne (hapart entry hentry)]

section Kinds

variable (hdone : CommitsTo params tracked assets log done loop placed)
  (hassets : Indexed params tracked assets log pending)
  (hpending : pending = done ++ issue :: rest) (hwritten : CanBeWritten issue.row)
  (hcovers : ∀ key : EntityKey, key.type.isTxid = true → tracked key)

include hdone hassets hpending hwritten

theorem CommitsTo.entity
    (hkind : IsPendingEntity params done issue) :
    ∃ loop', CommitsTo params tracked assets log (done ++ [issue]) loop'
      (loop.entry issue :: placed) := by
  obtain ⟨hkey, hneg, _⟩ := hkind
  have hwaits := hassets.queue done issue rest hpending
  have htype : issue.row.key.type = .txid := by rw [hkey]; rfl
  have hfollow : issue.row.key.type.isFollowOn = false := by rw [htype]; rfl
  have hrow : loop.placedRow issue.row =
      { issue.row with
        prevPos := loop.assets.prevPos
        firstPos := loop.nextPos
        chainPos := if issue.row.chainPos < 0 then loop.nextPos else issue.row.chainPos } := by
    unfold CommitLoop.placedRow CommitLoop.linked
    rw [hfollow, if_neg Bool.false_ne_true, if_pos hneg]
  have hfirst : (loop.entry issue).row.firstPos = loop.nextPos := congrArg EntityRow.firstPos hrow
  have hentryType : (loop.entry issue).row.key.type = .txid :=
    (congrArg (fun key => key.type) (loop.placedRow_key issue.row)).trans htype
  have hmemPool : loop.placedMemPool issue.row (poolRows params done).length =
      loop.assets.memPool.set (poolRows params done).length (loop.placedRow issue.row) := by
    unfold CommitLoop.placedMemPool
    rw [if_neg fun hboth => Bool.false_ne_true (hfollow.symm.trans hboth.1)]
  have hlinks : Links params tracked (loop.entry issue) (placed ++ log) :=
    ⟨⟨fun before hbefore => hdone.pos_lt hbefore, .inl hfirst, hdone.fresh hwaits⟩,
      .inl ⟨hentryType, hfirst⟩, fun hother => absurd (hentryType.symm.trans hother) (by simp),
      if_pos hwaits.chainPos⟩
  have hapart : ∀ entry ∈ placed, (loop.entry issue).row.firstPos ≠ entry.pos := by
    intro entry hentry
    rw [hfirst]
    exact Int.ne_of_gt (hdone.pos_lt (List.mem_append_left log hentry))
  refine hdone.extend hassets hpending hwritten ?_ hlinks ?_ ?_ ?_ (hdone.moved hmemPool hapart)
  · unfold CommitLoop.readable
    rw [hfollow]
    rfl
  · intro others _ hkeys
    have hgenesis : loop.genesisRow issue.row = none := by
      unfold CommitLoop.genesisRow
      rw [hfollow, if_neg Bool.false_ne_true]
    have hwrites : loop.assets.batch ++
        rowWrites params { loop.assets with pos := loop.nextPos } (loop.placedRow issue.row)
          (loop.genesisRow issue.row) ++
        others.map (fun key => EntityWrite.row key
          ⟨issue.row.block, loop.nextPos, loop.nextPos, issue.row.entityType⟩) =
      loop.assets.batch ++ (issue.row.key :: others).map fun key =>
        EntityWrite.row key ((loop.entry issue).dbRow loop.nextPos) := by
      rw [hgenesis, List.append_assoc]
      unfold rowWrites CommitLoop.entry Placed.dbRow
      rw [hrow]
      rfl
    rw [hwrites, EntityDB.commit_append, rows_commit_row]
    refine hdone.index.insert_start hdone.ordered hlinks hentryType fun key => ?_
    rw [hkeys, ← EntityRow.keys_of_unlinked (loop.placedRow_unlinked issue.row)]
    rfl
  · have hordered : Ordered params tracked (loop.entry issue :: (placed ++ log)) :=
      .cons hlinks hdone.ordered
    have htxid := hordered.txidAt_eq (.head _)
    have hpos : (loop.placedRow issue.row).firstPos = (loop.entry issue).pos := hfirst
    rw [hpos, htxid]
    show (loop.placedRow issue.row).key.key = _
    rw [CommitLoop.placedRow_key, hkey]
    rfl
  intro start hstart _
  have hlt := hdone.pos_lt (List.mem_append_right placed hstart)
  constructor
  · rintro ⟨hyes, _⟩
    rw [hfollow] at hyes
    cases hyes
  intro heq
  have hpos : loop.nextPos = start.pos := hfirst.symm.trans heq
  omega

include hcovers

theorem CommitsTo.followOn
    (htype : issue.row.key.type = .followOnTxid) (hread : loop.readable issue.row = true)
    {start : Placed} (hstart : start ∈ placed ++ log)
    (hkey : start.row.key = txidKey issue.original)
    (hfirst : (loop.placedRow issue.row).firstPos = start.pos)
    (hlast : (loop.placedRow issue.row).lastPos =
      head (ledgerView params) (placed ++ log) start.pos)
    {genesis : EntityRow} (hgenesis : loop.genesisRow issue.row = some genesis)
    (hsame : genesis.unlinked = start.row.unlinked) (hgenesisPos : genesis.firstPos = start.pos)
    (hchain : ∀ other ∈ log, other.row.key.type = .txid →
      (issue.row.firstPos = other.pos ↔ start.pos = other.pos))
    (hmoved : Moved params log placed done issue loop) :
    ∃ loop', CommitsTo params tracked assets log (done ++ [issue]) loop'
      (loop.entry issue :: placed) := by
  have hwaits := hassets.queue done issue rest hpending
  have hfollow : issue.row.key.type.isFollowOn = true := by rw [htype]; rfl
  have hstartType : start.row.key.type = .txid := by rw [hkey]; rfl
  have hentryType : (loop.entry issue).row.key.type = .followOnTxid :=
    (congrArg (fun key => key.type) (loop.placedRow_key issue.row)).trans htype
  have hstartFirst := hdone.ordered.firstPos_eq hstart hstartType
  have hlinks : Links params tracked (loop.entry issue) (placed ++ log) := by
    refine ⟨⟨fun before hbefore => hdone.pos_lt hbefore,
      .inr ⟨start, hstart, hfirst.symm, hstartFirst⟩, hdone.fresh hwaits⟩, ?_, ?_,
      if_pos hwaits.chainPos⟩
    · exact .inr ⟨hentryType, start, hstart, hstartType, hfirst.symm, hlast⟩
    intro _ key hother htracked before hbefore hmem
    exact (hdone.foreign hcovers hwaits htype hstart hkey key hother htracked before hbefore
      hmem).trans hfirst.symm
  refine hdone.extend hassets hpending hwritten hread hlinks ?_ ?_ ?_ hmoved
  · intro others htypes hkeys
    have hnone : others = [] := by
      cases others with
      | nil => rfl
      | cons other rest =>
        have hmem := (hkeys other).mp (.tail _ (.head _))
        have hother := htypes other (.head _)
        unfold EntityRow.keys at hmem
        rw [if_pos hfollow] at hmem
        rw [List.mem_singleton.mp hmem, hwaits.isTxid] at hother
        cases hother
    have hgenesisKeys : genesis.key :: genesis.otherKeys params = start.row.keys params := by
      have hgenesisKey : genesis.unlinked.key = start.row.unlinked.key := by rw [hsame]
      have hgenesisKey' : genesis.key = start.row.key := hgenesisKey
      rw [← EntityRow.keys_of_unlinked hsame]
      unfold EntityRow.keys
      rw [hgenesisKey', hstartType]
      rfl
    have hvalue : (⟨genesis.block, genesis.firstPos, loop.nextPos, genesis.entityType⟩ :
        EntityDBRow) = start.dbRow loop.nextPos := by
      have hblock : genesis.unlinked.block = start.row.unlinked.block := by rw [hsame]
      have hentityType : genesis.unlinked.entityType = start.row.unlinked.entityType := by
        rw [hsame]
      have hblock' : genesis.block = start.row.block := hblock
      have hentityType' : genesis.entityType = start.row.entityType := hentityType
      rw [hblock', hentityType', hgenesisPos]
      rfl
    have hwrites : loop.assets.batch ++
        rowWrites params { loop.assets with pos := loop.nextPos } (loop.placedRow issue.row)
          (loop.genesisRow issue.row) ++
        others.map (fun key => EntityWrite.row key
          ⟨issue.row.block, loop.nextPos, loop.nextPos, issue.row.entityType⟩) =
      loop.assets.batch ++
        (([(loop.entry issue).row.key].map fun key =>
            EntityWrite.row key ((loop.entry issue).dbRow loop.nextPos)) ++
          (start.row.keys params).map fun key =>
            EntityWrite.row key (start.dbRow loop.nextPos)) := by
      rw [hnone, hgenesis, ← hgenesisKeys, ← hvalue]
      rw [List.map_nil, List.append_nil]
      rfl
    rw [hwrites, EntityDB.commit_append, EntityDB.commit_append, rows_commit_row, rows_commit_row]
    exact hdone.index.insert_followOn hdone.ordered hlinks hentryType hstart hfirst.symm
  · have hordered : Ordered params tracked (loop.entry issue :: (placed ++ log)) :=
      .cons hlinks hdone.ordered
    rw [hfirst, hordered.txidAt_eq (.tail _ hstart), hkey]
    rfl
  · intro other hother hotherType
    rw [hfirst]
    exact ⟨fun hboth => (hchain other hother hotherType).mp hboth.2,
      fun heq => ⟨hfollow, (hchain other hother hotherType).mpr heq⟩⟩

/-- A follow-on of a confirmed asset comes where its insertion predicted. -/
theorem CommitsTo.followsConfirmed
    (hkind : FollowsConfirmed params log assets.pos done issue) :
    ∃ loop', CommitsTo params tracked assets log (done ++ [issue]) loop'
      (loop.entry issue :: placed) := by
  obtain ⟨htype, start, hstart, hkey, hpos, hlast⟩ := hkind
  have hfollow : issue.row.key.type.isFollowOn = true := by rw [htype]; rfl
  have hstartType : start.row.key.type = .txid := by rw [hkey]; rfl
  have hmem := List.mem_append_right placed hstart
  have hlow := hassets.backed.chained.pos_pos hstart
  have hhigh := hassets.backed.chained.pos_lt_endPos hstart
  have hconfirmed : ¬ issue.row.firstPos < 0 := by
    omega
  have hrow : loop.placedRow issue.row =
      { issue.row with
        prevPos := loop.assets.prevPos
        chainPos := if issue.row.chainPos < 0 then loop.nextPos else issue.row.chainPos } := by
    unfold CommitLoop.placedRow CommitLoop.linked
    rw [hfollow, if_pos rfl, if_neg hconfirmed]
  have hledgerRow := hdone.placing.chained.row_eq hmem
  have hmemPool : loop.placedMemPool issue.row (poolRows params done).length =
      loop.assets.memPool.set (poolRows params done).length (loop.placedRow issue.row) := by
    unfold CommitLoop.placedMemPool
    rw [if_neg fun hboth => hconfirmed hboth.2]
  have hapart : ∀ entry ∈ placed, (loop.entry issue).row.firstPos ≠ entry.pos := by
    intro entry hentry
    have habove := hdone.placing.above entry hentry
    show (loop.placedRow issue.row).firstPos ≠ entry.pos
    rw [hrow]
    show issue.row.firstPos ≠ entry.pos
    omega
  refine @CommitsTo.followOn _ _ _ _ _ _ _ _ _ _ hdone hassets hpending hwritten hcovers htype
    ?_ start hmem hkey ?_ ?_ start.row ?_ rfl ?_ ?_ (hdone.moved hmemPool hapart)
  · unfold CommitLoop.readable
    rw [← hpos, hledgerRow]
    simp
  · rw [hrow]
    exact hpos.symm
  · rw [hrow, ← hdone.predicted start hstart hstartType]
    exact hlast
  · unfold CommitLoop.genesisRow
    rw [hfollow, if_pos rfl, if_neg hconfirmed, ← hpos, hdone.placing.chained.getRow_eq hmem]
  · exact hdone.ordered.firstPos_eq hmem hstartType
  intro other _ _
  rw [hpos]

/-- A follow-on of a pending asset finds the asset's place and its last object in
the asset's mempool row, and moves that row on. -/
theorem CommitsTo.followsPending
    (hkind : FollowsPending params done issue) :
    ∃ loop', CommitsTo params tracked assets log (done ++ [issue]) loop'
      (loop.entry issue :: placed) := by
  obtain ⟨htype, first, asset, between, hsplit, hkey, hindex, _⟩ := hkind
  have hfollow : issue.row.key.type.isFollowOn = true := by rw [htype]; rfl
  have hassetType : asset.row.key.type = .txid := by rw [hkey]; rfl
  obtain ⟨start, hplaced, hunlinked, hget⟩ := hdone.starts first asset between hsplit hassetType
  have hmem := List.mem_append_left log hplaced
  have hstartKey : start.row.key = asset.row.key := by
    have hsame : start.row.unlinked.key = asset.row.unlinked.key := by rw [hunlinked]
    exact hsame
  have hstartType : start.row.key.type = .txid := by rw [hstartKey]; exact hassetType
  have hstartFirst := hdone.ordered.firstPos_eq hmem hstartType
  have hpending' : issue.row.firstPos < 0 := by omega
  have hat : (-issue.row.firstPos - 1).toNat = (poolRows params first).length := by omega
  have hinside := (List.getElem?_eq_some_iff.mp hget).1
  have hgenesis : loop.memPoolGenesis issue.row =
      { start.row with chainPos := head (ledgerView params) (placed ++ log) start.pos } := by
    unfold CommitLoop.memPoolGenesis
    rw [hat, List.getD_eq_getElem?_getD, hget]
    rfl
  have hrow : loop.placedRow issue.row =
      { issue.row with
        prevPos := loop.assets.prevPos
        lastPos := head (ledgerView params) (placed ++ log) start.pos
        firstPos := start.row.firstPos
        chainPos := if issue.row.chainPos < 0 then loop.nextPos else issue.row.chainPos } := by
    unfold CommitLoop.placedRow CommitLoop.linked
    rw [hfollow, if_pos rfl, if_pos hpending', hgenesis]
  have hmemPool : loop.placedMemPool issue.row (poolRows params done).length =
      (loop.assets.memPool.set (poolRows params first).length
        { start.row with chainPos := loop.nextPos }).set (poolRows params done).length
          (loop.placedRow issue.row) := by
    unfold CommitLoop.placedMemPool
    rw [if_pos ⟨hfollow, hpending'⟩, hat, hgenesis]
  have hentryFirst : (loop.entry issue).row.firstPos = start.pos := by
    show (loop.placedRow issue.row).firstPos = start.pos
    rw [hrow]
    exact hstartFirst
  have hbefore := @length_poolRows_lt params done between first asset hsplit
  refine @CommitsTo.followOn _ _ _ _ _ _ _ _ _ _ hdone hassets hpending hwritten hcovers htype
    ?_ start hmem (hstartKey.trans hkey) hentryFirst ?_
    { start.row with chainPos := loop.nextPos } ?_ rfl hstartFirst ?_ ⟨?_, ?_⟩
  · unfold CommitLoop.readable
    simp [hpending']
  · rw [hrow]
  · unfold CommitLoop.genesisRow
    rw [hfollow, if_pos rfl, if_pos hpending', hgenesis]
  · intro other hother _
    have habove := hdone.placing.above start hplaced
    have hlow := hassets.backed.chained.pos_pos hother
    have hhigh := hassets.backed.chained.pos_lt_endPos hother
    constructor
    · intro heq
      omega
    intro heq
    omega
  · intro i hi
    rw [hmemPool, List.getElem?_set_ne (Nat.ne_of_lt hi), List.getElem?_set_ne (by omega)]
  intro other asset' rest' hother hotherType
  obtain ⟨entry, hentry, hentryUnlinked, hentryGet⟩ :=
    hdone.starts other asset' rest' hother hotherType
  have hotherBefore := @length_poolRows_lt params done rest' other asset' hother
  rw [hmemPool, List.getElem?_set_ne (Nat.ne_of_gt hotherBefore)]
  by_cases hsame : (poolRows params first).length = (poolRows params other).length
  · refine ⟨start, hplaced, ?_, ?_⟩
    · rw [← hsame, hget] at hentryGet
      have hrows := congrArg (Option.map EntityRow.unlinked) hentryGet
      have hunlinkedRows : start.row.unlinked = entry.row.unlinked := Option.some.inj hrows
      rw [hunlinkedRows, hentryUnlinked]
    rw [← hsame, List.getElem?_set_self hinside, head_cons_of_firstPos hentryFirst]
    rfl
  refine ⟨entry, hentry, hentryUnlinked, ?_⟩
  rw [List.getElem?_set_ne hsame, hentryGet, head_cons_of_firstPos_ne]
  rw [hentryFirst]
  intro hpos
  -- the same ledger row would stand at two mempool indices
  have hentryStart := hdone.ordered.wellFormed.eq_of_pos hmem (List.mem_append_left log hentry) hpos
  have hkeys : asset.row.key = asset'.row.key := by
    have hentryKey : entry.row.unlinked.key = asset'.row.unlinked.key := by rw [hentryUnlinked]
    rw [← hstartKey, hentryStart]
    exact hentryKey
  refine hsame (congrArg (fun before => (poolRows params before).length) ?_)
  have hfirstSplit : pending = first ++ asset :: (between ++ issue :: rest) := by
    rw [hpending, hsplit, List.append_assoc, List.cons_append]
  have hotherSplit : pending = other ++ asset' :: (rest' ++ issue :: rest) := by
    rw [hpending, hother, List.append_assoc, List.cons_append]
  exact hassets.queue.eq_of_key hfirstSplit hotherSplit (hcovers _ (by rw [hassetType]; rfl)) hkeys

theorem CommitsTo.step :
    ∃ loop', CommitsTo params tracked assets log (done ++ [issue]) loop'
      (loop.entry issue :: placed) := by
  rcases (hassets.queue done issue rest hpending).kind with hentity | hconfirmed | hwaiting
  · exact hdone.entity hassets hpending hwritten hentity
  · exact hdone.followsConfirmed hassets hpending hwritten hcovers hconfirmed
  exact hdone.followsPending hassets hpending hwritten hcovers hwaiting

end Kinds

/-- The loop before the first issue. -/
theorem Indexed.commitsTo_start (hassets : Indexed params tracked assets log pending) :
    CommitsTo params tracked assets log [] ⟨assets, 0, false⟩ [] := by
  obtain ⟨hkept, hplacing⟩ := commitUpTo_placing params hassets.backed 0 (Nat.zero_le _)
  obtain ⟨placed, hplaced, hnone, _⟩ := hplacing rfl
  have hnext : (⟨assets, 0, false⟩ : CommitLoop).nextPos = log.endPos := by
    show assets.pos + 0 = log.endPos
    rw [Int.add_zero, hassets.pos]
  refine ⟨rfl, rfl, hkept, hnone rfl ▸ hplaced, hassets.ordered, ?_, rfl, hnext, rfl,
    fun _ _ _ => rfl, fun _ _ => rfl, fun _ hentry => absurd hentry List.not_mem_nil, ?_⟩
  · rw [hassets.batch]
    exact hassets.index
  intro first start rest hsplit
  exact absurd hsplit.symm (by simp)

/-- The loop behind all issues, when all their rows can be written. -/
theorem Indexed.commitsTo (hassets : Indexed params tracked assets log pending)
    (hcovers : ∀ key : EntityKey, key.type.isTxid = true → tracked key)
    (hwritten : ∀ row ∈ assets.memPool, CanBeWritten row) :
    ∃ loop placed, CommitsTo params tracked assets log pending loop placed := by
  have hinit : ∀ done rest, pending = done ++ rest →
      ∃ loop placed, CommitsTo params tracked assets log done loop placed := by
    intro done
    induction done using List.reverseRecOn with
    | nil => exact fun _ _ => ⟨_, _, hassets.commitsTo_start⟩
    | append_singleton done issue ih =>
      intro rest hpending
      rw [List.append_assoc, List.singleton_append] at hpending
      obtain ⟨loop, placed, hdone⟩ := ih _ hpending
      have hrow : CanBeWritten issue.row := by
        refine hwritten issue.row ?_
        obtain ⟨others, hrows, _⟩ := issue.rows_eq params
        rw [hassets.memPool, hpending, poolRows_append, poolRows_cons, hrows]
        exact List.mem_append_right _ (List.mem_append_left _ (.head _))
      obtain ⟨loop', hnext⟩ := hdone.step hassets hpending hrow hcovers
      exact ⟨loop', _, hnext⟩
  exact hinit pending [] (List.append_nil pending).symm

end AssetDB

end Amberchain.Entity
