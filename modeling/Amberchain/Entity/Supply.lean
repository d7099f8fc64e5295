import Amberchain.Entity.IndexedRuns

/-!
# What there is of an asset

`GetTotalQuantity` adds the pending issues of a chain to its ledger rows.  In an
indexed database these are the recorded issues of the asset, each counted once.
-/

namespace Amberchain.Entity

open LinkedLog

theorem sum_filter_congr {α : Type*} {weight : α → ℕ} {first second : α → Prop}
    [DecidablePred first] [DecidablePred second] {items : List α}
    (hsame : ∀ item ∈ items, weight item ≠ 0 → (first item ↔ second item)) :
    ((items.filter first).map weight).sum = ((items.filter second).map weight).sum := by
  induction items with
  | nil => rfl
  | cons item items ih =>
    have hrest := ih fun other hother => hsame other (.tail _ hother)
    rw [List.filter_cons, List.filter_cons]
    by_cases hzero : weight item = 0
    · split <;> split <;> simp [hzero, hrest]
    have hiff := hsame item (.head _) hzero
    simp only [decide_eq_true_eq, hiff]
    split <;> simp [hrest]

/-- How much waits in the mempool for the chain that starts at a position. -/
def pendingSupply (pending : List Pending) (firstPos : ℤ) : ℕ :=
  ((pending.filter fun issue => issue.row.firstPos = firstPos).map
    fun issue => issue.row.quantity.toNat).sum

variable {params : ChainParams} {tracked : EntityKey → Prop} {log : Log}
  {pending before after : List Pending} {issue : Pending} {start : Placed}

theorem filter_rows (htype : issue.row.key.type.isTxid = true) (firstPos : ℤ) :
    ((issue.rows params).filter fun row => row.key.type.isTxid ∧ row.firstPos = firstPos) =
      if issue.row.firstPos = firstPos then [issue.row] else [] := by
  obtain ⟨others, hrows, _, htypes, _⟩ := issue.rows_eq params
  have hnone : ((others.map fun key => { issue.row with key := key }).filter
      fun row => row.key.type.isTxid ∧ row.firstPos = firstPos) = [] := by
    rw [List.filter_eq_nil_iff]
    intro row hrow
    obtain ⟨key, hkey, rfl⟩ := List.mem_map.mp hrow
    simp [htypes key hkey]
  rw [hrows, List.filter_cons, hnone]
  simp only [htype, true_and, decide_eq_true_eq]

theorem poolRows_quantity (firstPos : ℤ)
    (htypes : ∀ issue ∈ pending, issue.row.key.type.isTxid = true) :
    (((poolRows params pending).filter fun row =>
        row.key.type.isTxid ∧ row.firstPos = firstPos).map EntityRow.quantity).sum =
      BitVec.ofNat 64 (pendingSupply pending firstPos) := by
  induction pending with
  | nil => rfl
  | cons issue rest ih =>
    have hrest := ih fun other hother => htypes other (.tail _ hother)
    rw [poolRows_cons, List.filter_append, List.map_append, List.sum_append, hrest,
      filter_rows (htypes issue (.head _))]
    unfold pendingSupply
    rw [List.filter_cons]
    by_cases hfirst : issue.row.firstPos = firstPos
    · rw [if_pos hfirst, if_pos (decide_eq_true hfirst), List.map_singleton, List.sum_singleton,
        List.map_cons, List.sum_cons, BitVec.ofNat_add, BitVec.ofNat_toNat, BitVec.setWidth_eq]
    rw [if_neg hfirst, if_neg (by simpa using hfirst)]
    simp

namespace AssetDB

variable {assets : AssetDB} {register : Register}

theorem Represents.supply_eq (hregister : Represents register log pending) (original : Hash256) :
    register.supply original =
      (((acceptedLog log).filter fun issue => issue.original = original).map
          fun issue => issue.quantity.toNat).sum +
        ((pending.filter fun issue => issue.original = original).map
          fun issue => issue.row.quantity.toNat).sum := by
  unfold Register.supply Register.issues
  rw [List.filter_append, List.map_append, List.sum_append, hregister.confirmed,
    hregister.pending, List.filter_map, List.map_map]
  rfl

theorem Indexed.isTxid (hassets : Indexed params tracked assets log pending) (issue : Pending)
    (hissue : issue ∈ pending) : issue.row.key.type.isTxid = true := by
  obtain ⟨before, after, hsplit⟩ := List.append_of_mem hissue
  exact (hassets.queue before issue after hsplit).isTxid

theorem Indexed.memPoolQuantity_eq (hassets : Indexed params tracked assets log pending)
    (firstPos : ℤ) :
    assets.memPoolQuantity firstPos = BitVec.ofNat 64 (pendingSupply pending firstPos) := by
  unfold memPoolQuantity
  rw [hassets.memPool]
  exact poolRows_quantity firstPos hassets.isTxid

theorem Indexed.original_recorded (hassets : Indexed params tracked assets log pending)
    (hregister : Represents register log pending) {accepted : Accepted}
    (haccepted : accepted ∈ register.issues) :
    (∃ start ∈ log, start.row.key = txidKey accepted.original) ∨
      ∃ issue ∈ pending, issue.row.key = txidKey accepted.original := by
  unfold Register.issues at haccepted
  rw [hregister.confirmed, hregister.pending] at haccepted
  rcases List.mem_append.mp haccepted with hlog | hpending
  · obtain ⟨entry, hentry, rfl⟩ := List.mem_map.mp hlog
    obtain ⟨start, hstart, htype, hpos⟩ := hassets.ordered.exists_start hentry
    refine .inl ⟨start, hstart, ?_⟩
    show start.row.key = txidKey (txidAt log entry.row.firstPos)
    rw [← hpos, hassets.ordered.txidAt_eq hstart]
    unfold txidKey
    rw [← htype]
  obtain ⟨issue, hissue, rfl⟩ := List.mem_map.mp hpending
  obtain ⟨before, after, hsplit⟩ := List.append_of_mem hissue
  rcases (hassets.queue before issue after hsplit).kind with
    ⟨hkey, _⟩ | ⟨_, start, hstart, hkey, _⟩ | ⟨_, first, start, rest, hbefore, hkey, _⟩
  · exact .inr ⟨issue, hissue, hkey⟩
  · exact .inl ⟨start, hstart, hkey⟩
  refine .inr ⟨start, ?_, hkey⟩
  rw [hsplit, hbefore]
  simp

/-- There is nothing of an entity whose txid leads nowhere. -/
theorem Indexed.supply_fresh (hassets : Indexed params tracked assets log pending)
    (hregister : Represents register log pending) {txid : Hash256}
    (htracked : tracked (txidKey txid)) (hfree : assets.getEntity (txidKey txid) = none) :
    register.supply txid = 0 := by
  obtain ⟨hlog, hpending⟩ := hassets.fresh_of_getEntity htracked hfree
  unfold Register.supply
  rw [List.filter_eq_nil_iff.mpr]
  · rfl
  intro accepted haccepted horiginal
  have htxid : accepted.original = txid := of_decide_eq_true horiginal
  rcases hassets.original_recorded hregister haccepted with
    ⟨start, hstart, hkey⟩ | ⟨issue, hissue, hkey⟩
  · refine hlog start hstart ?_
    rw [← htxid, ← hkey]
    exact start.row.key_mem_keys
  refine hpending issue hissue ?_
  rw [← htxid, ← hkey]
  exact issue.row.key_mem_keys

/-- The pending issues of a confirmed asset are those that name its position. -/
theorem Indexed.pending_confirmed (hassets : Indexed params tracked assets log pending)
    (hstart : start ∈ log) (htracked : tracked start.row.key) (htype : start.row.key.type = .txid)
    (issue : Pending) (hissue : issue ∈ pending) :
    issue.row.firstPos = start.pos ↔ issue.original = start.row.key.key := by
  obtain ⟨before, after, hsplit⟩ := List.append_of_mem hissue
  have hwaits := hassets.queue before issue after hsplit
  have hpos := hassets.backed.chained.pos_pos hstart
  have hkeyOf : ∀ txid, txid = start.row.key.key → txidKey txid = start.row.key := by
    rintro txid rfl
    unfold txidKey
    rw [← htype]
  rcases hwaits.kind with
    ⟨hkey, hneg, _⟩ | ⟨_, other, hother, hkey, hplace, _⟩ |
      ⟨_, first, other, rest, hbefore, hkey, hplace, _⟩
  · refine ⟨fun heq => by omega, fun htxid => ?_⟩
    -- a pending entity does not have the key of a confirmed one
    rw [hkeyOf _ htxid] at hkey
    have hfree := (hwaits.fresh issue.row.key issue.row.key_mem_keys (hkey ▸ htracked)).1
    exact absurd (hkey ▸ start.row.key_mem_keys) (hfree start hstart)
  · rw [← hplace]
    constructor
    · intro heq
      rw [hassets.ordered.wellFormed.eq_of_pos hother hstart heq] at hkey
      rw [hkey]
      rfl
    intro htxid
    rw [hkeyOf _ htxid] at hkey
    exact congrArg Placed.pos (hassets.ordered.wellFormed.eq_of_key hother hstart htracked
      (hkey ▸ other.row.key_mem_keys) start.row.key_mem_keys)
  refine ⟨fun heq => by omega, fun htxid => ?_⟩
  rw [hkeyOf _ htxid] at hkey
  have hothers := hassets.queue first other (rest ++ issue :: after) (by
    rw [hsplit, hbefore]
    simp)
  have hfree := (hothers.fresh other.row.key other.row.key_mem_keys (hkey ▸ htracked)).1
  exact absurd (hkey ▸ start.row.key_mem_keys) (hfree start hstart)

/-- Places in one mempool are told apart by the rows before them. -/
theorem eq_of_poolRows_length {first second firstRest secondRest : List Pending}
    (hfirst : pending = first ++ firstRest) (hsecond : pending = second ++ secondRest)
    (hlength : (poolRows params first).length = (poolRows params second).length) :
    first = second := by
  have hnil : ∀ between : List Pending, (poolRows params between).length = 0 → between = [] := by
    intro between hzero
    cases between with
    | nil => rfl
    | cons issue rest =>
      obtain ⟨others, hrows, _⟩ := issue.rows_eq params
      rw [poolRows_cons, hrows] at hzero
      exact absurd hzero (Nat.succ_ne_zero _)
  rcases List.append_eq_append_iff.mp (hfirst.symm.trans hsecond) with
    ⟨between, hsplit, _⟩ | ⟨between, hsplit, _⟩
  · rw [hsplit, poolRows_append, List.length_append] at hlength
    rw [hsplit, hnil between (by omega), List.append_nil]
  rw [hsplit, poolRows_append, List.length_append] at hlength
  rw [hsplit, hnil between (by omega), List.append_nil]

theorem Indexed.place_iff (hassets : Indexed params tracked assets log pending)
    {first rest : List Pending} {other : Pending} {txid original : Hash256}
    (hpending : pending = before ++ issue :: after) (hother : pending = first ++ other :: rest)
    (htracked : tracked (txidKey txid)) (hkey : issue.row.key = txidKey txid)
    (hotherKey : other.row.key = txidKey original) :
    (poolRows params first).length = (poolRows params before).length ↔ original = txid := by
  constructor
  · intro hlength
    have hsame := eq_of_poolRows_length hother hpending hlength
    rw [hsame, hpending] at hother
    have hcons := List.append_cancel_left hother
    injection hcons with hissue _
    rw [← hissue, hkey] at hotherKey
    injection hotherKey with htxid _
    exact htxid.symm
  intro htxid
  have hsame : issue.row.key = other.row.key := by rw [hkey, hotherKey, htxid]
  rw [hassets.queue.eq_of_key hpending hother (hkey ▸ htracked) hsame]

/-- The pending issues of a pending asset are those that name its place, as far as
they have a quantity. -/
theorem Indexed.pending_pending (hassets : Indexed params tracked assets log pending)
    {txid : Hash256} (hpending : pending = before ++ issue :: after)
    (htracked : tracked (txidKey txid)) (hkey : issue.row.key = txidKey txid)
    (hfirst : issue.row.firstPos = -((poolRows params before).length + 1)) (other : Pending)
    (hother : other ∈ pending) (hquantity : other.row.quantity.toNat ≠ 0) :
    other.row.firstPos = issue.row.firstPos ↔ other.original = txid := by
  obtain ⟨second, rest, hsplit⟩ := List.append_of_mem hother
  have hfree := ((hassets.queue before issue after hpending).fresh issue.row.key
    issue.row.key_mem_keys (hkey ▸ htracked)).1
  rcases (hassets.queue second other rest hsplit).kind with
    ⟨hotherKey, _, hplace | hzero⟩ | ⟨_, start, hstart, hstartKey, hplace, _⟩ |
      ⟨_, first, start, between, hsecond, hstartKey, hplace, _⟩
  · rw [← hassets.place_iff hpending hsplit htracked hkey hotherKey]
    omega
  · rw [hzero] at hquantity
    exact absurd rfl hquantity
  · have hpos := hassets.backed.chained.pos_pos hstart
    refine ⟨fun heq => by omega, fun htxid => ?_⟩
    rw [htxid, ← hkey] at hstartKey
    exact absurd (hstartKey ▸ start.row.key_mem_keys) (hfree start hstart)
  have hstartSplit : pending = first ++ start :: (between ++ other :: rest) := by
    rw [hsplit, hsecond]
    simp
  rw [← hassets.place_iff hpending hstartSplit htracked hkey hstartKey]
  omega

section

variable (hassets : Indexed params tracked assets log pending)
  (hcovers : ∀ key : EntityKey, key.type.isTxid = true → tracked key)
  (hregister : Represents register log pending)

include hassets hcovers hregister

theorem Indexed.supply_confirmed (hstart : start ∈ log)
    (htype : start.row.key.type = .txid) : register.supply start.row.key.key =
      chainSupply log start.pos + pendingSupply pending start.pos := by
  have htracked : tracked start.row.key := hcovers _ (by rw [htype]; rfl)
  rw [hregister.supply_eq,
    hassets.ordered.supply_eq (fun key hkey => hcovers key (by rw [hkey]; rfl)) hstart htype]
  refine congrArg (chainSupply log start.pos + ·) (sum_filter_congr fun issue hissue _ => ?_)
  exact (hassets.pending_confirmed hstart htracked htype issue hissue).symm

theorem Indexed.supply_pending {txid : Hash256}
    (hpending : pending = before ++ issue :: after) (hkey : issue.row.key = txidKey txid)
    (hfirst : issue.row.firstPos = -((poolRows params before).length + 1)) :
    register.supply txid = pendingSupply pending issue.row.firstPos := by
  have htracked : tracked (txidKey txid) := hcovers _ rfl
  have hfree := ((hassets.queue before issue after hpending).fresh issue.row.key
    issue.row.key_mem_keys (hkey ▸ htracked)).1
  have hnone : (acceptedLog log).filter (fun accepted => accepted.original = txid) = [] := by
    rw [List.filter_eq_nil_iff]
    intro accepted haccepted horiginal
    obtain ⟨entry, hentry, rfl⟩ := List.mem_map.mp haccepted
    obtain ⟨start, hstart, htype, hpos⟩ := hassets.ordered.exists_start hentry
    have htxid : txidAt log entry.row.firstPos = txid := of_decide_eq_true horiginal
    rw [← hpos, hassets.ordered.txidAt_eq hstart] at htxid
    have hstartKey : start.row.key = issue.row.key := by
      rw [hkey, ← htxid]
      unfold txidKey
      rw [← htype]
    exact hfree start hstart (hstartKey ▸ start.row.key_mem_keys)
  rw [hregister.supply_eq, hnone, List.map_nil, List.sum_nil, Nat.zero_add]
  refine sum_filter_congr fun other hother hquantity => ?_
  exact (hassets.pending_pending hpending htracked hkey hfirst other hother hquantity).symm

theorem Indexed.total_confirmed (hstart : start ∈ log)
    (htype : start.row.key.type = .txid) : assets.getTotalQuantity
        { start.row with chainPos := head (ledgerView params) log start.pos } =
      BitVec.ofNat 64 (register.supply start.row.key.key) := by
  have hfirst := hassets.ordered.firstPos_eq hstart htype
  have hpos := hassets.backed.chained.pos_pos hstart
  unfold getTotalQuantity
  rw [hfirst, if_neg (by omega), hassets.ordered.chainQuantity_eq hassets.backed.chained hstart
    htype _ _ (Nat.lt_succ_self _), hassets.memPoolQuantity_eq,
    hassets.supply_confirmed hcovers hregister hstart htype, BitVec.ofNat_add, BitVec.add_comm]

theorem Indexed.total_pending {txid : Hash256}
    (hpending : pending = before ++ issue :: after) (hkey : issue.row.key = txidKey txid)
    (hfirst : issue.row.firstPos = -((poolRows params before).length + 1)) :
    assets.getTotalQuantity issue.row = BitVec.ofNat 64 (register.supply txid) := by
  unfold getTotalQuantity
  rw [if_pos (by omega), hassets.memPoolQuantity_eq,
    hassets.supply_pending hcovers hregister hpending hkey hfirst]

end

end AssetDB

end Amberchain.Entity
