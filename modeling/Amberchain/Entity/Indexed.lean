import Amberchain.Entity.Chains

/-!
# Pending issues

In the mempool each key of a pending entity has a row of its own behind its txid
row, and a follow-on has one row.  A key leads to its entity by a search for the
row and a few steps back.
-/

namespace Amberchain.Entity

open LinkedLog

structure Pending where
  row : EntityRow
  original : Hash256

def Pending.accepted (issue : Pending) : Accepted :=
  issue.row.accepted issue.original

def Pending.rows (params : ChainParams) (issue : Pending) : List EntityRow :=
  if issue.row.key.type.isFollowOn then [issue.row] else AssetDB.keyRows params issue.row

def poolRows (params : ChainParams) (pending : List Pending) : List EntityRow :=
  pending.flatMap (Pending.rows params)

variable {params : ChainParams} {tracked : EntityKey → Prop} {log : Log} {pos : ℤ}
  {pending before after : List Pending} {issue : Pending} {key : EntityKey}

@[simp]
theorem poolRows_append (first second : List Pending) :
    poolRows params (first ++ second) = poolRows params first ++ poolRows params second :=
  List.flatMap_append

@[simp]
theorem poolRows_cons (issue : Pending) (rest : List Pending) :
    poolRows params (issue :: rest) = issue.rows params ++ poolRows params rest :=
  List.flatMap_cons

theorem poolRows_singleton (issue : Pending) : poolRows params [issue] = issue.rows params :=
  List.flatMap_singleton _ issue

theorem EntityRow.eq_of_isTxid {row : EntityRow} (hkey : key ∈ row.keys params)
    (htype : key.type.isTxid = true) : key = row.key := by
  unfold EntityRow.keys at hkey
  split at hkey
  · exact List.mem_singleton.mp hkey
  rcases List.mem_cons.mp hkey with heq | hother
  · exact heq
  unfold EntityRow.otherKeys at hother
  simp only [List.mem_cons, List.mem_append, Option.mem_toList, Option.map_eq_some_iff] at hother
  rcases hother with (rfl | ⟨ref, _, rfl⟩) | ⟨name, _, rfl⟩
  · cases htype
  · cases htype
  cases htype

theorem EntityRow.key_mem_keys (row : EntityRow) : row.key ∈ row.keys params := by
  unfold EntityRow.keys
  split <;> exact .head _

variable (params) in
/-- The txid row comes first, the rows under the other keys follow, at most three
of them. -/
theorem Pending.rows_eq (issue : Pending) : ∃ others : List EntityKey, issue.rows params =
        issue.row :: others.map (fun key => { issue.row with key := key }) ∧
      others.length ≤ 3 ∧ (∀ key ∈ others, key.type.isTxid = false) ∧
      ∀ key, key ∈ issue.row.key :: others ↔ key ∈ issue.row.keys params := by
  unfold Pending.rows EntityRow.keys
  cases hfollow : issue.row.key.type.isFollowOn with
  | true =>
    exact ⟨[], rfl, Nat.zero_le 3, fun _ hkey => absurd hkey List.not_mem_nil, fun _ => Iff.rfl⟩
  | false =>
    unfold AssetDB.keyRows EntityRow.otherKeys
    refine ⟨(issue.row.ref.map refKey).toList ++ ((issue.row.name params).map nameKey).toList
      ++ [shortTxidKey (shortTxid issue.row.key.key)], rfl, ?_, ?_, ?_⟩
    · cases issue.row.ref <;> cases issue.row.name params <;> simp
    · intro key hkey
      simp only [List.mem_append, Option.mem_toList, Option.map_eq_some_iff,
        List.mem_singleton] at hkey
      rcases hkey with (⟨ref, _, rfl⟩ | ⟨name, _, rfl⟩) | rfl
      · rfl
      · rfl
      · rfl
    intro key
    simp only [Bool.false_eq_true, if_false, List.mem_cons, List.mem_append, List.not_mem_nil,
      or_false]
    tauto

theorem Pending.mem_rows_key (issue : Pending) :
    (∃ row ∈ issue.rows params, row.key = key) ↔ key ∈ issue.row.keys params := by
  obtain ⟨others, hrows, _, _, hkeys⟩ := issue.rows_eq params
  rw [← hkeys, hrows]
  constructor
  · rintro ⟨row, hrow, rfl⟩
    rcases List.mem_cons.mp hrow with rfl | hother
    · exact .head _
    obtain ⟨other, hmem, rfl⟩ := List.mem_map.mp hother
    exact .tail _ hmem
  intro hkey
  rcases List.mem_cons.mp hkey with rfl | hother
  · exact ⟨issue.row, (.head _), rfl⟩
  exact ⟨{ issue.row with key := key },
    List.mem_cons_of_mem _ (List.mem_map.mpr ⟨key, hother, rfl⟩), rfl⟩

/-- From a row under another key the walk goes back to the txid row. -/
theorem walkToTxid_eq {memPool : List EntityRow} {start : ℕ} {row : EntityRow}
    (hrow : memPool[start]? = some row) (htype : row.key.type.isTxid = true) :
    ∀ back steps, back ≤ steps → (∀ i, 0 < i → i ≤ back →
        ∃ other, memPool[start + i]? = some other ∧ other.key.type.isTxid = false) →
      AssetDB.walkToTxid memPool steps (start + back) = some row := by
  intro back
  induction back with
  | zero =>
    intro steps _ _
    unfold AssetDB.walkToTxid
    rw [Nat.add_zero, hrow]
    dsimp only
    rw [if_pos htype]
  | succ back ih =>
    intro steps hsteps hothers
    obtain ⟨other, hother, hotherType⟩ := hothers (back + 1) (Nat.succ_pos back) (Nat.le_refl _)
    cases steps with
    | zero => exact absurd hsteps (Nat.not_succ_le_zero back)
    | succ steps =>
      unfold AssetDB.walkToTxid
      rw [hother]
      dsimp only
      rw [hotherType]
      exact ih steps (Nat.le_of_succ_le_succ hsteps) fun i hpos hle => hothers i hpos (by omega)

theorem findIdx?_poolRows_eq_none (hnone : ∀ issue ∈ pending, key ∉ issue.row.keys params) :
    (poolRows params pending).findIdx? (fun row => row.key = key) = none := by
  rw [List.findIdx?_eq_none_iff]
  intro row hrow
  obtain ⟨issue, hissue, hmem⟩ := List.mem_flatMap.mp hrow
  refine decide_eq_false fun heq => hnone issue hissue ?_
  exact issue.mem_rows_key.mp ⟨row, hmem, heq⟩

theorem findIdx?_poolRows (hbefore : ∀ other ∈ before, key ∉ other.row.keys params)
    (hkey : key ∈ issue.row.keys params) : ∃ back < (issue.rows params).length,
      (poolRows params (before ++ issue :: after)).findIdx? (fun row => row.key = key) =
        some ((poolRows params before).length + back) := by
  have hsome : ((issue.rows params).findIdx? fun row => row.key = key).isSome := by
    rw [List.findIdx?_isSome]
    obtain ⟨row, hrow, heq⟩ := issue.mem_rows_key.mpr hkey
    exact List.any_eq_true.mpr ⟨row, hrow, decide_eq_true heq⟩
  obtain ⟨back, hback⟩ := Option.isSome_iff_exists.mp hsome
  refine ⟨back, (List.findIdx?_eq_some_iff_findIdx_eq.mp hback).1, ?_⟩
  rw [poolRows_append, poolRows_cons, List.findIdx?_append, findIdx?_poolRows_eq_none hbefore,
    List.findIdx?_append, hback]
  simp [Nat.add_comm]

theorem walkToTxid_poolRows (htype : issue.row.key.type.isTxid = true) {back : ℕ}
    (hback : back < (issue.rows params).length) :
    AssetDB.walkToTxid (poolRows params (before ++ issue :: after)) 3
      ((poolRows params before).length + back) = some issue.row := by
  obtain ⟨others, hrows, hlength, htypes, _⟩ := issue.rows_eq params
  have hget : ∀ i, i < (issue.rows params).length →
      (poolRows params (before ++ issue :: after))[(poolRows params before).length + i]? =
        (issue.rows params)[i]? := by
    intro i hi
    rw [poolRows_append, poolRows_cons, List.getElem?_append_right (Nat.le_add_right _ _),
      Nat.add_sub_cancel_left, List.getElem?_append_left hi]
  have hcount : (issue.rows params).length = others.length + 1 := by
    rw [hrows, List.length_cons, List.length_map]
  refine walkToTxid_eq ?_ htype back 3 (by omega) fun i hpos hle => ?_
  · have hfirst := hget 0 (by omega)
    rw [hrows] at hfirst
    exact hfirst
  rw [hget i (by omega), hrows]
  obtain ⟨j, rfl⟩ := Nat.exists_eq_succ_of_ne_zero (Nat.pos_iff_ne_zero.mp hpos)
  rw [List.getElem?_cons_succ, List.getElem?_map]
  have hj : j < others.length := by omega
  rw [List.getElem?_eq_getElem hj]
  exact ⟨_, rfl, htypes _ (List.getElem_mem hj)⟩

end Amberchain.Entity

/-!
# A database that is indexed by its log

The invariant of sound runs: the key rows are the index of the live ledger, the
mempool holds the pending issues, and every pending follow-on refers to its own
asset.  Under it, a key leads to the entity that has it and to nothing else.
-/

namespace Amberchain.Entity

open LinkedLog

/-- A pending entity.  Where its first position is not its own mempool index,
there is no quantity to count. -/
def IsPendingEntity (params : ChainParams) (before : List Pending) (issue : Pending) : Prop :=
  issue.row.key = txidKey issue.original ∧ issue.row.firstPos < 0 ∧
    (issue.row.firstPos = -((poolRows params before).length + 1) ∨ issue.row.quantity = 0)

/-- A pending follow-on of a confirmed asset, with the place of the last object
before it as the commit will have it. -/
def FollowsConfirmed (params : ChainParams) (log : Log) (pos : ℤ) (before : List Pending)
    (issue : Pending) : Prop :=
  issue.row.key.type = .followOnTxid ∧
    ∃ start ∈ log, start.row.key = txidKey issue.original ∧ start.pos = issue.row.firstPos ∧
      issue.row.lastPos =
        AssetDB.lastOfChain start.pos (poolRows params before) pos
          (head (ledgerView params) log start.pos)

/-- A pending follow-on of a pending asset, which stands at the mempool index that
both name. -/
def FollowsPending (params : ChainParams) (before : List Pending) (issue : Pending) : Prop :=
  issue.row.key.type = .followOnTxid ∧
    ∃ first start rest, before = first ++ start :: rest ∧
      start.row.key = txidKey issue.original ∧
      issue.row.firstPos = -((poolRows params first).length + 1) ∧
      start.row.firstPos = issue.row.firstPos

structure Waits (params : ChainParams) (tracked : EntityKey → Prop) (log : Log) (pos : ℤ)
    (before : List Pending) (issue : Pending) : Prop where
  chainPos : issue.row.chainPos < 0
  kind : IsPendingEntity params before issue ∨ FollowsConfirmed params log pos before issue ∨
    FollowsPending params before issue
  fresh : ∀ key ∈ issue.row.keys params, tracked key →
    (∀ entry ∈ log, key ∉ entry.row.keys params) ∧
      ∀ other ∈ before, key ∉ other.row.keys params
  foreign : issue.row.key.type = .followOnTxid →
    ∀ key ∈ issue.row.otherKeys params, tracked key →
      (∀ entry ∈ log, key ∈ entry.row.keys params → entry.row.key = txidKey issue.original) ∧
        ∀ other ∈ before, key ∈ other.row.keys params → other.row.key = txidKey issue.original

def Queue (params : ChainParams) (tracked : EntityKey → Prop) (log : Log) (pos : ℤ)
    (pending : List Pending) : Prop :=
  ∀ before issue after, pending = before ++ issue :: after →
    Waits params tracked log pos before issue

variable {params : ChainParams} {tracked : EntityKey → Prop} {log : Log} {pos : ℤ}
  {pending before after : List Pending} {issue : Pending} {key : EntityKey}

theorem Waits.isTxid (hwaits : Waits params tracked log pos before issue) :
    issue.row.key.type.isTxid = true := by
  rcases hwaits.kind with ⟨hkey, _⟩ | ⟨htype, _⟩ | ⟨htype, _⟩
  · rw [hkey]
    rfl
  · rw [htype]
    rfl
  rw [htype]
  rfl

theorem queue_nil : Queue params tracked log pos [] := by
  intro before issue after heq
  exact absurd heq.symm (by simp)

theorem Queue.append (hqueue : Queue params tracked log pos pending)
    (hwaits : Waits params tracked log pos pending issue) :
    Queue params tracked log pos (pending ++ [issue]) := by
  intro before other after heq
  rcases List.eq_nil_or_concat after with rfl | ⟨rest, last, rfl⟩
  · obtain ⟨hpending, hissue⟩ := List.append_inj' heq rfl
    cases hissue
    rw [← hpending]
    exact hwaits
  rw [List.concat_eq_append, ← List.cons_append, ← List.append_assoc] at heq
  obtain ⟨hpending, _⟩ := List.append_inj' heq rfl
  exact hqueue before other rest hpending

/-- Issues that wait in one queue under one tracked key stand at one place. -/
theorem Queue.eq_of_key (hqueue : Queue params tracked log pos pending)
    {first second firstRest secondRest : List Pending} {start other : Pending}
    (hfirst : pending = first ++ start :: firstRest)
    (hsecond : pending = second ++ other :: secondRest) (htracked : tracked start.row.key)
    (hkey : start.row.key = other.row.key) : first = second := by
  have hstart := hqueue first start firstRest hfirst
  have hother := hqueue second other secondRest hsecond
  rcases List.append_eq_append_iff.mp (hfirst.symm.trans hsecond) with
    ⟨between, hsplit, hrest⟩ | ⟨between, hsplit, hrest⟩
  · cases between with
    | nil => rw [hsplit, List.append_nil]
    | cons issue between =>
      obtain ⟨rfl, _⟩ := List.cons_eq_cons.mp hrest
      have hmem : start ∈ second := by
        rw [hsplit]
        exact List.mem_append_right _ (.head _)
      have hkeys : other.row.key ∈ start.row.keys params := hkey ▸ start.row.key_mem_keys
      exact absurd hkeys ((hother.fresh _ other.row.key_mem_keys (hkey ▸ htracked)).2 start hmem)
  cases between with
  | nil => rw [hsplit, List.append_nil]
  | cons issue between =>
    obtain ⟨rfl, _⟩ := List.cons_eq_cons.mp hrest
    have hmem : other ∈ first := by
      rw [hsplit]
      exact List.mem_append_right _ (.head _)
    have hkeys : start.row.key ∈ other.row.keys params := hkey ▸ other.row.key_mem_keys
    exact absurd hkeys ((hstart.fresh _ start.row.key_mem_keys htracked).2 other hmem)

namespace AssetDB

structure Indexed (params : ChainParams) (tracked : EntityKey → Prop) (assets : AssetDB)
    (log : Log) (pending : List Pending) : Prop where
  backed : Backed assets log log
  batch : assets.batch = []
  pos : assets.pos = log.endPos
  ordered : Ordered params tracked log
  index : Indexes params tracked assets.db.rows log
  memPool : assets.memPool = poolRows params pending
  queue : Queue params tracked log assets.pos pending

variable {assets : AssetDB}

namespace Indexed

section

variable (hassets : Indexed params tracked assets log pending)

include hassets

theorem getEntity_log {entry : Placed}
    (hentry : entry ∈ log) (htracked : tracked key) (hkey : key ∈ entry.row.keys params) :
    assets.getEntity key =
      some { entry.row with chainPos := head (ledgerView params) log entry.pos } := by
  have hrow := hassets.index key htracked
  rw [hassets.ordered.indexRow_eq hentry htracked hkey] at hrow
  unfold getEntity
  rw [hrow]
  show Option.map _ (assets.ledger.row entry.pos) = _
  rw [hassets.backed.chained.row_eq hentry]
  rfl

theorem getEntity_memPool
    (htracked : tracked key) (hnone : ∀ entry ∈ log, key ∉ entry.row.keys params) :
    assets.getEntity key =
      match assets.seekMemPool key with
      | some index => walkToTxid assets.memPool 3 index
      | none => none := by
  have hrow := hassets.index key htracked
  rw [indexRow_eq_none hnone] at hrow
  rw [getEntity, hrow]
  all_goals rfl

theorem getEntity_pending
    (hpending : pending = before ++ issue :: after) (htracked : tracked key)
    (hkey : key ∈ issue.row.keys params) : assets.getEntity key = some issue.row := by
  have hwaits := hassets.queue before issue after hpending
  obtain ⟨hlog, hbefore⟩ := hwaits.fresh key hkey htracked
  obtain ⟨back, hback, hfound⟩ := @findIdx?_poolRows params before after issue key hbefore hkey
  rw [hassets.getEntity_memPool htracked hlog]
  unfold seekMemPool
  rw [hassets.memPool, hpending, hfound]
  exact walkToTxid_poolRows hwaits.isTxid hback

theorem getEntity_none
    (htracked : tracked key) (hlog : ∀ entry ∈ log, key ∉ entry.row.keys params)
    (hpending : ∀ issue ∈ pending, key ∉ issue.row.keys params) : assets.getEntity key = none := by
  rw [hassets.getEntity_memPool htracked hlog]
  unfold seekMemPool
  rw [hassets.memPool, findIdx?_poolRows_eq_none hpending]

end

/-- Where a tracked key leads. -/
theorem getEntity_cases (hassets : Indexed params tracked assets log pending)
    (htracked : tracked key) : (∃ entry ∈ log, key ∈ entry.row.keys params ∧ assets.getEntity key =
          some { entry.row with chainPos := head (ledgerView params) log entry.pos }) ∨
      (∃ before issue after, pending = before ++ issue :: after ∧
        key ∈ issue.row.keys params ∧ assets.getEntity key = some issue.row) ∨
      (assets.getEntity key = none ∧ (∀ entry ∈ log, key ∉ entry.row.keys params) ∧
        ∀ issue ∈ pending, key ∉ issue.row.keys params) := by
  by_cases hlog : ∃ entry ∈ log, key ∈ entry.row.keys params
  · obtain ⟨entry, hentry, hkey⟩ := hlog
    exact .inl ⟨entry, hentry, hkey, hassets.getEntity_log hentry htracked hkey⟩
  by_cases hwaiting : ∃ issue ∈ pending, key ∈ issue.row.keys params
  · obtain ⟨issue, hissue, hkey⟩ := hwaiting
    obtain ⟨before, after, hsplit⟩ := List.append_of_mem hissue
    exact .inr (.inl ⟨before, issue, after, hsplit, hkey,
      hassets.getEntity_pending hsplit htracked hkey⟩)
  push Not at hlog hwaiting
  exact .inr (.inr ⟨hassets.getEntity_none htracked hlog hwaiting, hlog, hwaiting⟩)

theorem fresh_of_getEntity (hassets : Indexed params tracked assets log pending)
    (htracked : tracked key) (hfree : assets.getEntity key = none) :
    (∀ entry ∈ log, key ∉ entry.row.keys params) ∧
      ∀ issue ∈ pending, key ∉ issue.row.keys params := by
  rcases hassets.getEntity_cases htracked with
    ⟨_, _, _, hfound⟩ | ⟨_, _, _, _, _, hfound⟩ | ⟨_, hnone⟩
  · rw [hfree] at hfound
    cases hfound
  · rw [hfree] at hfound
    cases hfound
  exact hnone

end Indexed

end AssetDB

end Amberchain.Entity
