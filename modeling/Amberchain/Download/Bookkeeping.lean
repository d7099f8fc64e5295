import Amberchain.Download.InFlight
import Mathlib.Algebra.BigOperators.Group.List.Basic

/-!
# The bookkeeping of blocks in flight

The map always has the entries of the lists.  The counters agree with the lists as long as
nothing is dropped without being counted, which happens when incoming traffic is resumed and
when a peer leaves.
-/

namespace Amberchain.Download

variable {B : Type}

/-! ## What is in flight -/

def CNodeState.validated (state : CNodeState B) : ℕ :=
  state.vBlocksInFlight.countP (·.2.fValidatedHeaders)

/-- How far the counter of a peer is above its list. -/
def CNodeState.excess (state : CNodeState B) : ℤ :=
  state.nBlocksInFlight - state.vBlocksInFlight.length

namespace Requests

/-- The peer has an entry in its list, at an address. -/
def Holds (requests : Requests B) (nodeid : NodeId) (it : ℕ) (entry : QueuedBlock B) : Prop :=
  ∃ state, requests.mapNodeState.lookup nodeid = some state ∧ (it, entry) ∈ state.vBlocksInFlight

def inFlight (requests : Requests B) : List (ℕ × QueuedBlock B) :=
  requests.mapNodeState.entries.flatMap fun peer => peer.2.vBlocksInFlight

/-- The bookkeeping agrees with the lists: no hash is in flight twice, the map has the
entries of the lists, both counters are right, and a peer with nothing in flight can be
asked for blocks. -/
structure Exact (requests : Requests B) : Prop where
  onePeer : ∀ {nodeid other it otherIt entry otherEntry}, requests.Holds nodeid it entry →
    requests.Holds other otherIt otherEntry → entry.hash = otherEntry.hash →
      nodeid = other ∧ it = otherIt
  listed : ∀ hash nodeid it, requests.mapBlocksInFlight hash = some (nodeid, it) ↔
    ∃ entry, requests.Holds nodeid it entry ∧ entry.hash = hash
  counted : ∀ {nodeid state}, requests.mapNodeState.lookup nodeid = some state →
    state.nBlocksInFlight = state.vBlocksInFlight.length
  validated : requests.nQueuedValidatedHeaders =
    requests.inFlight.countP (·.2.fValidatedHeaders)
  askable : ∀ {nodeid state}, requests.mapNodeState.lookup nodeid = some state →
    state.vBlocksInFlight = [] → state.nBlocksInFlight < MAX_BLOCKS_IN_TRANSIT_PER_PEER

/-- A step that drops no entry from its list without counting it: no traffic is resumed with
a peer that still has blocks in flight, and no peer leaves with blocks in flight whose
headers were validated. -/
def Careful (requests : Requests B) : Step B → Prop
  | .finalizeNode nodeid =>
    ∀ it entry, requests.Holds nodeid it entry → entry.fValidatedHeaders = false
  | .sendMessages _ nodeid => requests.pausedIncoming = false →
      (∃ pto, requests.nodes nodeid = some pto ∧ pto.fLastIgnoreIncoming = true) →
        ∀ it entry, ¬requests.Holds nodeid it entry
  | _ => True

/-! ## Map and lists -/

structure Linked (requests : Requests B) : Prop where
  listed : ∀ hash nodeid it, requests.mapBlocksInFlight hash = some (nodeid, it) ↔
    ∃ entry, requests.Holds nodeid it entry ∧ entry.hash = hash
  fresh : ∀ {nodeid it entry}, requests.Holds nodeid it entry → it < requests.nextNode
  nodup : ∀ {nodeid state}, requests.mapNodeState.lookup nodeid = some state →
    (state.vBlocksInFlight.map Prod.fst).Nodup

variable {requests after : Requests B} {nodeid : NodeId} {state : CNodeState B}

theorem holds_iff (hstate : requests.mapNodeState.lookup nodeid = some state) (it : ℕ)
    (entry : QueuedBlock B) :
    requests.Holds nodeid it entry ↔ (it, entry) ∈ state.vBlocksInFlight := by
  constructor
  · rintro ⟨found, hfound, hmem⟩
    rw [hstate] at hfound
    cases hfound
    exact hmem
  exact fun hmem => ⟨state, hstate, hmem⟩

@[simp]
theorem lookup_setState (other : NodeId) :
    (requests.setState nodeid state).mapNodeState.lookup other =
      if other = nodeid then some state else requests.mapNodeState.lookup other := by
  by_cases hsame : other = nodeid
  · rw [if_pos hsame, hsame]
    exact AList.lookup_insert _
  rw [if_neg hsame]
  exact AList.lookup_insert_ne hsame

@[simp]
theorem nQueuedValidatedHeaders_setState :
    (requests.setState nodeid state).nQueuedValidatedHeaders = requests.nQueuedValidatedHeaders :=
  rfl

theorem holds_setState (other : NodeId) (it : ℕ) (entry : QueuedBlock B) :
    (requests.setState nodeid state).Holds other it entry ↔
      if other = nodeid then (it, entry) ∈ state.vBlocksInFlight
      else requests.Holds other it entry := by
  by_cases hsame : other = nodeid
  · rw [if_pos hsame, hsame]
    exact holds_iff (by simp) it entry
  simp [Holds, hsame]

theorem eraseEntries_apply (entries : List (ℕ × QueuedBlock B)) (hash : Hash256) :
    (requests.eraseEntries entries).mapBlocksInFlight hash =
      if ∃ entry ∈ entries, entry.2.hash = hash then none
      else requests.mapBlocksInFlight hash := by
  suffices hfold : ∀ mapBlocksInFlight : Hash256 → Option (NodeId × ℕ),
      (entries.foldl (fun (mapBlocksInFlight : Hash256 → Option (NodeId × ℕ)) entry =>
          Function.update mapBlocksInFlight entry.2.hash none) mapBlocksInFlight) hash =
        if ∃ entry ∈ entries, entry.2.hash = hash then none else mapBlocksInFlight hash from
    hfold requests.mapBlocksInFlight
  induction entries with
  | nil => simp
  | cons entry entries ih =>
    intro mapBlocksInFlight
    rw [List.foldl_cons, ih]
    by_cases hlater : ∃ entry ∈ entries, entry.2.hash = hash
    · rw [if_pos hlater, if_pos]
      obtain ⟨later, hmem, hhash⟩ := hlater
      exact ⟨later, List.mem_cons_of_mem _ hmem, hhash⟩
    by_cases hsame : entry.2.hash = hash
    · rw [if_neg hlater, if_pos ⟨entry, (.head _), hsame⟩, hsame]
      exact Function.update_self ..
    rw [if_neg hlater, if_neg]
    · exact Function.update_of_ne (Ne.symm hsame) ..
    rintro ⟨other, hmem, hhash⟩
    rcases List.mem_cons.mp hmem with rfl | hmem
    · exact hsame hhash
    exact hlater ⟨other, hmem, hhash⟩

theorem Linked.onePeer (hlinked : requests.Linked) {other : NodeId} {it otherIt : ℕ}
    {entry otherEntry : QueuedBlock B} (hholds : requests.Holds nodeid it entry)
    (hother : requests.Holds other otherIt otherEntry) (hhash : entry.hash = otherEntry.hash) :
    nodeid = other ∧ it = otherIt := by
  have hfirst := (hlinked.listed entry.hash nodeid it).mpr ⟨entry, hholds, rfl⟩
  have hsecond := (hlinked.listed entry.hash other otherIt).mpr ⟨otherEntry, hother, hhash.symm⟩
  rw [hfirst] at hsecond
  simpa using hsecond

theorem Linked.eq_of_listed (hlinked : requests.Linked) {hash : Hash256} {other : NodeId}
    {it otherIt : ℕ} {entry : QueuedBlock B}
    (hlisted : requests.mapBlocksInFlight hash = some (nodeid, it))
    (hholds : requests.Holds other otherIt entry) (hhash : entry.hash = hash) :
    other = nodeid ∧ otherIt = it := by
  have hsecond := (hlinked.listed hash other otherIt).mpr ⟨entry, hholds, hhash⟩
  rw [hlisted] at hsecond
  simpa [eq_comm] using hsecond

theorem Linked.congr (hlinked : requests.Linked)
    (hholds : ∀ other it entry, after.Holds other it entry ↔ requests.Holds other it entry)
    (hmap : after.mapBlocksInFlight = requests.mapBlocksInFlight)
    (hnext : requests.nextNode ≤ after.nextNode)
    (hnodup : ∀ {other state}, after.mapNodeState.lookup other = some state →
      (state.vBlocksInFlight.map Prod.fst).Nodup) :
    after.Linked where
  listed := fun hash other it => by
    rw [hmap, hlinked.listed]
    exact exists_congr fun entry => and_congr_left fun _ => (hholds other it entry).symm
  fresh := fun hafter => (hlinked.fresh ((hholds _ _ _).mp hafter)).trans_le hnext
  nodup := hnodup

/-! ## Counters and lists -/

def validatedIn (peers : List (Sigma fun _ : NodeId => CNodeState B)) : ℕ :=
  (peers.map fun peer => peer.2.validated).sum

/-- How far the counter of a peer is above its list, where the peer is there. -/
def excess (requests : Requests B) (nodeid : NodeId) : Option ℤ :=
  (requests.mapNodeState.lookup nodeid).map CNodeState.excess

def surplus (requests : Requests B) : ℤ :=
  requests.nQueuedValidatedHeaders - validatedIn requests.mapNodeState.entries

theorem countP_inFlight : requests.inFlight.countP (·.2.fValidatedHeaders) =
      validatedIn requests.mapNodeState.entries := by
  rw [inFlight, List.countP_flatMap]
  rfl

theorem validatedIn_kerase :
    ∀ {peers : List (Sigma fun _ : NodeId => CNodeState B)}, peers.dlookup nodeid = some state →
      validatedIn peers = state.validated + validatedIn (peers.kerase nodeid) := by
  intro peers
  induction peers with
  | nil => exact fun hnone => absurd hnone (by simp)
  | cons peer peers ih =>
    obtain ⟨other, otherState⟩ := peer
    intro hlookup
    by_cases hsame : nodeid = other
    · subst hsame
      rw [List.dlookup_cons_eq] at hlookup
      cases hlookup
      have hcons : List.kerase nodeid (⟨nodeid, state⟩ :: peers) = peers := List.kerase_cons_eq rfl
      rw [hcons]
      rfl
    rw [List.dlookup_cons_ne _ _ hsame] at hlookup
    rw [List.kerase_cons_ne hsame]
    calc validatedIn (⟨other, otherState⟩ :: peers)
        = otherState.validated + validatedIn peers := rfl
      _ = otherState.validated + (state.validated + validatedIn (peers.kerase nodeid)) := by
          rw [ih hlookup]
      _ = state.validated + (otherState.validated + validatedIn (peers.kerase nodeid)) := by
          rw [Nat.add_left_comm]

theorem validatedIn_setState {newState : CNodeState B}
    (hstate : requests.mapNodeState.lookup nodeid = some state) :
    validatedIn (requests.setState nodeid newState).mapNodeState.entries + state.validated =
      validatedIn requests.mapNodeState.entries + newState.validated := by
  have hbefore : validatedIn requests.mapNodeState.entries =
      state.validated + validatedIn (requests.mapNodeState.entries.kerase nodeid) :=
    validatedIn_kerase hstate
  have hafter : validatedIn (requests.setState nodeid newState).mapNodeState.entries =
      newState.validated + validatedIn (requests.mapNodeState.entries.kerase nodeid) := by
    rfl
  omega

@[simp]
theorem excess_setState (other : NodeId) : (requests.setState nodeid state).excess other =
      if other = nodeid then some state.excess else requests.excess other := by
  rw [excess, lookup_setState]
  split <;> rfl

/-- All counters agree with the lists. -/
structure Balanced (requests : Requests B) : Prop where
  excess : ∀ {nodeid difference}, requests.excess nodeid = some difference → difference = 0
  surplus : requests.surplus = 0

theorem Linked.exact_iff (hlinked : requests.Linked) : requests.Exact ↔ requests.Balanced := by
  constructor
  · intro hexact
    refine ⟨fun {nodeid difference} hdifference => ?_, ?_⟩
    · obtain ⟨state, hstate, hvalue⟩ := Option.map_eq_some_iff.mp hdifference
      rw [← hvalue, CNodeState.excess, hexact.counted hstate, sub_self]
    · rw [Requests.surplus, hexact.validated, countP_inFlight, sub_self]
  intro hbalanced
  have hcounted : ∀ {nodeid state}, requests.mapNodeState.lookup nodeid = some state →
      state.nBlocksInFlight = state.vBlocksInFlight.length := by
    intro nodeid state hstate
    have hexcess : requests.excess nodeid = some state.excess := by
      rw [Requests.excess, hstate]
      rfl
    exact sub_eq_zero.mp (hbalanced.excess hexcess)
  exact {
    onePeer := hlinked.onePeer
    listed := hlinked.listed
    counted := hcounted
    validated := by
      rw [countP_inFlight]
      exact sub_eq_zero.mp hbalanced.surplus
    askable := fun hstate hempty => by
      rw [hcounted hstate, hempty]
      simp [MAX_BLOCKS_IN_TRANSIT_PER_PEER] }

/-- What is changed without a difference between counters and lists. -/
structure Keeps (requests after : Requests B) : Prop where
  linked : after.Linked
  excess : ∀ nodeid, after.excess nodeid = requests.excess nodeid
  surplus : after.surplus = requests.surplus

theorem Keeps.trans {middle : Requests B} (hfirst : requests.Keeps middle)
    (hsecond : middle.Keeps after) : requests.Keeps after where
  linked := hsecond.linked
  excess := fun nodeid => (hsecond.excess nodeid).trans (hfirst.excess nodeid)
  surplus := hsecond.surplus.trans hfirst.surplus

theorem Linked.keeps (hlinked : requests.Linked) : requests.Keeps requests where
  linked := hlinked
  excess := fun _ => rfl
  surplus := rfl

theorem Keeps.balanced_iff (hkeeps : requests.Keeps after) :
    after.Balanced ↔ requests.Balanced := by
  constructor
  · exact fun hbalanced => ⟨fun hdifference => hbalanced.excess ((hkeeps.excess _).trans hdifference),
      hkeeps.surplus.symm.trans hbalanced.surplus⟩
  exact fun hbalanced => ⟨fun hdifference => hbalanced.excess ((hkeeps.excess _).symm.trans hdifference),
    hkeeps.surplus.trans hbalanced.surplus⟩

/-- A peer gets another list of entries with addresses of their own. -/
theorem Linked.nodup_insert (hlinked : requests.Linked) {newState : CNodeState B}
    (hstates : after.mapNodeState = requests.mapNodeState.insert nodeid newState)
    (hnew : (newState.vBlocksInFlight.map Prod.fst).Nodup) {other : NodeId}
    {otherState : CNodeState B} (hother : after.mapNodeState.lookup other = some otherState) :
    (otherState.vBlocksInFlight.map Prod.fst).Nodup := by
  rw [hstates] at hother
  by_cases hsame : other = nodeid
  · rw [hsame, AList.lookup_insert] at hother
    cases hother
    exact hnew
  rw [AList.lookup_insert_ne hsame] at hother
  exact hlinked.nodup hother

/-- A peer gets another state, and the counters change with it. -/
theorem Linked.keeps_insert (hlinked : after.Linked) {newState : CNodeState B}
    (hstate : requests.mapNodeState.lookup nodeid = some state)
    (hstates : after.mapNodeState = requests.mapNodeState.insert nodeid newState)
    (hexcess : newState.excess = state.excess)
    (hqueued : after.nQueuedValidatedHeaders + state.validated =
      requests.nQueuedValidatedHeaders + newState.validated) :
    requests.Keeps after where
  linked := hlinked
  excess := fun other => by
    rw [excess, excess, hstates]
    by_cases hsame : other = nodeid
    · rw [hsame, AList.lookup_insert, hstate, Option.map_some, hexcess, Option.map_some]
    · rw [AList.lookup_insert_ne hsame]
  surplus := by
    have hvalidated : validatedIn (requests.mapNodeState.insert nodeid newState).entries +
        state.validated = validatedIn requests.mapNodeState.entries + newState.validated :=
      validatedIn_setState hstate
    rw [← hstates] at hvalidated
    rw [surplus, surplus]
    omega

/-! ## An entry leaves -/

/-- A list node with an address of its own is found, and leaves the others when it goes. -/
theorem exists_node {entries : List (ℕ × QueuedBlock B)} {it : ℕ} {entry : QueuedBlock B}
    (hnodup : (entries.map Prod.fst).Nodup) (hmem : (it, entry) ∈ entries) :
    ∃ before later, entries = before ++ (it, entry) :: later ∧
      (∀ other ∈ before ++ later, other.1 ≠ it) ∧ entries.find? (·.1 = it) = some (it, entry) ∧
      entries.eraseP (·.1 = it) = before ++ later := by
  obtain ⟨before, later, rfl⟩ := List.append_of_mem hmem
  have hother : ∀ other ∈ before ++ later, other.1 ≠ it := by
    rw [List.map_append, List.map_cons, List.nodup_middle, List.nodup_cons] at hnodup
    intro other hmem hsame
    refine hnodup.1 ?_
    rw [← List.map_append, ← hsame]
    exact List.mem_map.mpr ⟨other, hmem, rfl⟩
  have hbefore : ∀ other ∈ before, ¬decide (other.1 = it) = true := fun other hmem =>
    by simpa using hother other (List.mem_append_left later hmem)
  refine ⟨before, later, rfl, hother, ?_, ?_⟩
  · rw [List.find?_append, List.find?_eq_none.mpr hbefore]
    simp
  rw [List.eraseP_append_right _ hbefore, List.eraseP_cons_of_pos (by simp)]

def without (requests : Requests B) (hash : Hash256) (nodeid : NodeId) (state : CNodeState B)
    (entry : QueuedBlock B) (rest : List (ℕ × QueuedBlock B)) : Requests B :=
  { requests.setState nodeid { state with
      vBlocksInFlight := rest
      nBlocksInFlight := state.nBlocksInFlight - 1
      nStallingSince := 0 } with
    nQueuedValidatedHeaders := requests.nQueuedValidatedHeaders - entry.fValidatedHeaders.toNat
    mapBlocksInFlight := Function.update requests.mapBlocksInFlight hash none }

theorem Linked.received (hlinked : requests.Linked) {hash : Hash256} {it : ℕ}
    (hlisted : requests.mapBlocksInFlight hash = some (nodeid, it)) :
    ∃ state entry before later, requests.mapNodeState.lookup nodeid = some state ∧
      entry.hash = hash ∧ state.vBlocksInFlight = before ++ (it, entry) :: later ∧
      (∀ other ∈ before ++ later, other.1 ≠ it) ∧ requests.markBlockAsReceived hash =
        some (requests.without hash nodeid state entry (before ++ later)) := by
  obtain ⟨entry, ⟨state, hstate, hmem⟩, hhash⟩ := (hlinked.listed hash nodeid it).mp hlisted
  obtain ⟨before, later, hentries, hother, hfind, herase⟩ := exists_node (hlinked.nodup hstate) hmem
  refine ⟨state, entry, before, later, hstate, hhash, hentries, hother, ?_⟩
  rw [markBlockAsReceived, hlisted]
  simp only [hstate, hfind, herase, Option.bind_eq_bind, Option.bind_some]
  rfl

theorem Linked.holds_without (hlinked : requests.Linked) {hash : Hash256} {it : ℕ}
    {entry : QueuedBlock B} {before later : List (ℕ × QueuedBlock B)}
    (hlisted : requests.mapBlocksInFlight hash = some (nodeid, it))
    (hstate : requests.mapNodeState.lookup nodeid = some state) (hhash : entry.hash = hash)
    (hentries : state.vBlocksInFlight = before ++ (it, entry) :: later)
    (hother : ∀ other ∈ before ++ later, other.1 ≠ it) (other : NodeId) (otherIt : ℕ)
    (otherEntry : QueuedBlock B) :
    (requests.without hash nodeid state entry (before ++ later)).Holds other otherIt otherEntry ↔
      requests.Holds other otherIt otherEntry ∧ otherEntry.hash ≠ hash := by
  have hwithout : (requests.without hash nodeid state entry (before ++ later)).Holds other otherIt
        otherEntry ↔
      if other = nodeid then (otherIt, otherEntry) ∈ before ++ later
      else requests.Holds other otherIt otherEntry :=
    holds_setState other otherIt otherEntry
  rw [hwithout]
  by_cases hsame : other = nodeid
  · subst hsame
    rw [if_pos rfl, holds_iff hstate, hentries]
    constructor
    · intro hmem
      have hold : (otherIt, otherEntry) ∈ before ++ (it, entry) :: later :=
        (List.sublist_cons_self _ _ |>.append_left before).subset hmem
      refine ⟨hold, fun hsameHash => hother _ hmem ?_⟩
      exact (hlinked.eq_of_listed hlisted ((holds_iff hstate _ _).mpr (hentries ▸ hold))
        hsameHash).2
    rintro ⟨hmem, hne⟩
    rcases List.mem_append.mp hmem with hmem | hmem
    · exact List.mem_append_left _ hmem
    rcases List.mem_cons.mp hmem with heq | hmem
    · cases heq
      exact absurd hhash hne
    · exact List.mem_append_right _ hmem
  rw [if_neg hsame]
  refine ⟨fun hholds => ⟨hholds, fun hsameHash => hsame ?_⟩, And.left⟩
  exact (hlinked.eq_of_listed hlisted hholds hsameHash).1

theorem Linked.markBlockAsReceived (hlinked : requests.Linked) {hash : Hash256}
    (hdone : requests.markBlockAsReceived hash = some after) :
    requests.Keeps after ∧ after.mapBlocksInFlight hash = none := by
  cases hlisted : requests.mapBlocksInFlight hash with
  | none =>
    rw [Requests.markBlockAsReceived, hlisted] at hdone
    cases hdone
    exact ⟨hlinked.keeps, hlisted⟩
  | some listed =>
    obtain ⟨nodeid, it⟩ := listed
    obtain ⟨state, entry, before, later, hstate, hhash, hentries, hother, hreceived⟩ :=
      hlinked.received hlisted
    rw [hreceived] at hdone
    cases hdone
    have hholds := hlinked.holds_without hlisted hstate hhash hentries hother
    refine ⟨Linked.keeps_insert ⟨fun other otherNode otherIt => ?_, fun hafter => ?_,
      fun hlookup => ?_⟩ hstate rfl ?_ ?_, ?_⟩
    · by_cases hsame : other = hash
      · subst hsame
        refine ⟨fun hsome => absurd hsome (by simp [without]), ?_⟩
        rintro ⟨found, hfound, rfl⟩
        exact absurd rfl ((hholds _ _ _).mp hfound).2
      have hkept : (requests.without hash nodeid state entry (before ++ later)).mapBlocksInFlight
          other = requests.mapBlocksInFlight other := Function.update_of_ne hsame ..
      rw [hkept, hlinked.listed]
      refine exists_congr fun found => and_congr_left fun hfound => ?_
      rw [hholds, hfound]
      exact (and_iff_left hsame).symm
    · exact hlinked.fresh ((hholds _ _ _).mp hafter).1
    · refine hlinked.nodup_insert rfl ?_ hlookup
      have hnodup := hlinked.nodup hstate
      rw [hentries, List.map_append] at hnodup
      simpa using (List.nodup_middle.mp hnodup).of_cons
    · simp only [CNodeState.excess, hentries, List.length_append, List.length_cons]
      push_cast
      ring
    · simp only [CNodeState.validated, hentries, List.countP_append, List.countP_cons, without]
      cases entry.fValidatedHeaders
      · simp
      push_cast
      simp only [Bool.toNat_true, if_true]
      ring
    simp [without]

/-! ## An entry comes -/

/-- The peer gets a new entry at the end of its list. -/
theorem Linked.appended (hlinked : requests.Linked) {hash : Hash256} {entry : QueuedBlock B}
    {newState : CNodeState B} (hfree : requests.mapBlocksInFlight hash = none)
    (hstate : requests.mapNodeState.lookup nodeid = some state) (hhash : entry.hash = hash)
    (hentries : newState.vBlocksInFlight = state.vBlocksInFlight ++ [(requests.nextNode, entry)])
    (hstates : after.mapNodeState = requests.mapNodeState.insert nodeid newState)
    (hmap : after.mapBlocksInFlight =
      Function.update requests.mapBlocksInFlight hash (some (nodeid, requests.nextNode)))
    (hnext : after.nextNode = requests.nextNode + 1) : after.Linked := by
  have hholds : ∀ other it otherEntry, after.Holds other it otherEntry ↔
      requests.Holds other it otherEntry ∨
        (other = nodeid ∧ it = requests.nextNode ∧ otherEntry = entry) := by
    intro other it otherEntry
    have hinsert : after.Holds other it otherEntry ↔
        if other = nodeid then (it, otherEntry) ∈ newState.vBlocksInFlight
        else requests.Holds other it otherEntry := by
      rw [Holds, hstates]
      exact holds_setState other it otherEntry
    rw [hinsert]
    by_cases hsame : other = nodeid
    · subst hsame
      rw [hentries, holds_iff hstate]
      simp
    · simp [hsame]
  have hnone : ∀ other it otherEntry, requests.Holds other it otherEntry →
      otherEntry.hash ≠ hash := by
    intro other it otherEntry hother hsame
    have hlisted := (hlinked.listed hash other it).mpr ⟨otherEntry, hother, hsame⟩
    rw [hfree] at hlisted
    cases hlisted
  refine ⟨fun otherHash other it => ?_, fun hafter => ?_, fun hlookup => ?_⟩
  · rw [hmap]
    by_cases hsame : otherHash = hash
    · subst hsame
      rw [Function.update_self]
      constructor
      · intro heq
        cases heq
        exact ⟨entry, (hholds _ _ _).mpr (.inr ⟨rfl, rfl, rfl⟩), hhash⟩
      rintro ⟨otherEntry, hother, hotherHash⟩
      rcases (hholds _ _ _).mp hother with hold | ⟨rfl, rfl, rfl⟩
      · exact absurd hotherHash (hnone _ _ _ hold)
      · rfl
    rw [Function.update_of_ne hsame, hlinked.listed]
    refine exists_congr fun otherEntry => and_congr_left fun hotherHash => ?_
    rw [hholds]
    refine (or_iff_left ?_).symm
    rintro ⟨-, -, rfl⟩
    exact hsame (hotherHash.symm.trans hhash)
  · rw [hnext]
    rcases (hholds _ _ _).mp hafter with hold | ⟨-, rfl, -⟩
    · exact (hlinked.fresh hold).trans (Nat.lt_succ_self _)
    · exact Nat.lt_succ_self _
  refine hlinked.nodup_insert hstates ?_ hlookup
  rw [hentries, List.map_append, List.nodup_append]
  refine ⟨hlinked.nodup hstate, List.nodup_singleton _, ?_⟩
  intro address haddress other hother
  obtain ⟨found, hfound, rfl⟩ := List.mem_map.mp haddress
  rw [List.mem_singleton.mp hother]
  exact (hlinked.fresh ⟨state, hstate, hfound⟩).ne

/-- Asking for a block moves its entry to the peer, and counts it. -/
theorem Linked.markBlockAsInFlight (hlinked : requests.Linked) {hash : Hash256}
    {pindex : Option B} {time : ℤ}
    (hdone : requests.markBlockAsInFlight nodeid hash pindex time = some after) :
    requests.Keeps after := by
  rw [Requests.markBlockAsInFlight] at hdone
  simp only [Option.bind_eq_bind, Option.bind_eq_some_iff, Option.pure_def,
    Option.some.injEq] at hdone
  obtain ⟨-, -, middle, hreceived, state, hstate, rfl⟩ := hdone
  obtain ⟨hkeeps, hfree⟩ := hlinked.markBlockAsReceived hreceived
  refine hkeeps.trans (Linked.keeps_insert
    (hkeeps.linked.appended hfree hstate rfl rfl rfl rfl rfl) hstate rfl ?_ ?_)
  · simp only [CNodeState.excess, List.length_append, List.length_singleton]
    push_cast
    ring
  simp only [CNodeState.validated, List.countP_append, List.countP_singleton,
    nQueuedValidatedHeaders_setState]
  cases pindex.isSome
  · simp
  push_cast
  simp only [Bool.toNat_true, if_true]
  ring

theorem Linked.setState (hlinked : requests.Linked) {newState : CNodeState B}
    (hstate : requests.mapNodeState.lookup nodeid = some state)
    (hentries : newState.vBlocksInFlight = state.vBlocksInFlight)
    (hcounter : newState.nBlocksInFlight = state.nBlocksInFlight) :
    requests.Keeps (requests.setState nodeid newState) := by
  have hafter : (requests.setState nodeid newState).Linked := by
    refine hlinked.congr (fun other it entry => ?_) rfl (Nat.le_refl _) fun hlookup =>
      hlinked.nodup_insert rfl (hentries ▸ hlinked.nodup hstate) hlookup
    rw [holds_setState]
    by_cases hsame : other = nodeid
    · rw [if_pos hsame, hsame, holds_iff hstate, hentries]
    · rw [if_neg hsame]
  refine hafter.keeps_insert hstate rfl ?_ ?_
  · rw [CNodeState.excess, CNodeState.excess, hentries, hcounter]
  rw [CNodeState.validated, CNodeState.validated, hentries]
  rfl

/-- Only flags change. -/
theorem Keeps.of_eq (hkeeps : requests.Keeps after) {other : Requests B}
    (hstates : other.mapNodeState = after.mapNodeState)
    (hmap : other.mapBlocksInFlight = after.mapBlocksInFlight)
    (hqueued : other.nQueuedValidatedHeaders = after.nQueuedValidatedHeaders)
    (hnext : other.nextNode = after.nextNode) : requests.Keeps other where
  linked := hkeeps.linked.congr (fun _ _ _ => by rw [Holds, Holds, hstates]) hmap hnext.ge
    fun hlookup => hkeeps.linked.nodup (hstates ▸ hlookup)
  excess := fun nodeid => by
    rw [← hkeeps.excess nodeid, Requests.excess, Requests.excess, hstates]
  surplus := by
    rw [← hkeeps.surplus, Requests.surplus, Requests.surplus, hstates, hqueued]

/-! ## Messages -/

section Sending

variable {sending : Sending B}

structure SameEntries (state newState : CNodeState B) : Prop where
  entries : newState.vBlocksInFlight = state.vBlocksInFlight
  counter : newState.nBlocksInFlight = state.nBlocksInFlight

theorem sameEntries_processBlockAvailability (view : BlockView B) (state : CNodeState B) :
    SameEntries state (processBlockAvailability view state) := by
  rw [processBlockAvailability]
  split
  · split
    · split <;> exact ⟨rfl, rfl⟩
    · exact ⟨rfl, rfl⟩
  exact ⟨rfl, rfl⟩

theorem sameEntries_updateBlockAvailability (view : BlockView B) (hash : Hash256)
    (state : CNodeState B) :
    SameEntries state (Download.updateBlockAvailability view hash state) := by
  have hprocessed := sameEntries_processBlockAvailability view state
  rw [Download.updateBlockAvailability]
  split
  · split
    · exact ⟨hprocessed.entries, hprocessed.counter⟩
    · exact hprocessed
  exact ⟨hprocessed.entries, hprocessed.counter⟩

variable [DecidableEq B]

/-- Looking for blocks changes what is known of the peer's chain only. -/
theorem sameEntries_findNextBlocksToDownload {view : BlockView B}
    {inFlight : Hash256 → Option NodeId} {count : ℕ} {newState : CNodeState B}
    {vBlocks : List B} {staller : Option NodeId}
    (hfound : findNextBlocksToDownload view inFlight nodeid count state =
      some (newState, vBlocks, staller)) : SameEntries state newState := by
  have hprocessed := sameEntries_processBlockAvailability view state
  rw [findNextBlocksToDownload] at hfound
  split at hfound
  · cases hfound
    exact ⟨rfl, rfl⟩
  simp only [Option.bind_eq_bind, Option.bind_eq_some_iff, Option.pure_def] at hfound
  obtain ⟨best, -, hfound⟩ := hfound
  cases best with
  | none =>
    cases hfound
    exact hprocessed
  | some best =>
    obtain ⟨tip, -, hfound⟩ := Option.bind_eq_some_iff.mp hfound
    split at hfound
    · cases hfound
      exact hprocessed
    obtain ⟨start, -, hfound⟩ := Option.bind_eq_some_iff.mp hfound
    obtain ⟨common, -, hfound⟩ := Option.bind_eq_some_iff.mp hfound
    split at hfound
    · cases hfound
      exact ⟨hprocessed.entries, hprocessed.counter⟩
    cases hfound
    exact ⟨hprocessed.entries, hprocessed.counter⟩

omit [DecidableEq B] in
theorem Linked.markAll {vToDownload : List B} : ∀ {requests : Requests B}, requests.Linked →
      requests.markAll sending nodeid vToDownload = some after → requests.Keeps after := by
  induction vToDownload with
  | nil =>
    intro requests hlinked hdone
    cases hdone
    exact hlinked.keeps
  | cons pindex vToDownload ih =>
    intro requests hlinked hdone
    obtain ⟨middle, hmarked, hrest⟩ := Option.bind_eq_some_iff.mp hdone
    have hkeeps := hlinked.markBlockAsInFlight hmarked
    exact hkeeps.trans (ih hkeeps.linked hrest)

omit [DecidableEq B] in
theorem Linked.noteStaller (hlinked : requests.Linked) {staller : Option NodeId}
    (hdone : requests.noteStaller sending nodeid staller = some after) : requests.Keeps after := by
  obtain ⟨state, -, hdone⟩ := Option.bind_eq_some_iff.mp hdone
  cases staller with
  | none =>
    cases hdone
    exact hlinked.keeps
  | some staller =>
    simp only at hdone
    split at hdone
    · obtain ⟨other, hother, hdone⟩ := Option.bind_eq_some_iff.mp hdone
      cases hdone
      split
      · exact hlinked.setState hother rfl rfl
      · exact hlinked.keeps
    cases hdone
    exact hlinked.keeps

theorem Linked.getData (hlinked : requests.Linked)
    (hdone : requests.getData sending nodeid = some after) : requests.Keeps after := by
  obtain ⟨state, hstate, hdone⟩ := Option.bind_eq_some_iff.mp hdone
  split at hdone
  · obtain ⟨⟨newState, vToDownload, staller⟩, hfound, hdone⟩ := Option.bind_eq_some_iff.mp hdone
    obtain ⟨marked, hmarked, hdone⟩ := Option.bind_eq_some_iff.mp hdone
    have hsame := sameEntries_findNextBlocksToDownload hfound
    have hset := hlinked.setState hstate hsame.entries hsame.counter
    have hall := hset.linked.markAll hmarked
    exact (hset.trans hall).trans (hall.linked.noteStaller hdone)
  cases hdone
  exact hlinked.keeps

end Sending

/-! ## Entries that are dropped -/

/-- The entries of a peer go from the map and from its list together. -/
theorem Linked.dropped (hlinked : requests.Linked)
    (hstate : requests.mapNodeState.lookup nodeid = some state)
    (hholds : ∀ other it entry, after.Holds other it entry ↔
      requests.Holds other it entry ∧ other ≠ nodeid) (hmap : after.mapBlocksInFlight =
      (requests.eraseEntries state.vBlocksInFlight).mapBlocksInFlight)
    (hnext : after.nextNode = requests.nextNode)
    (hnodup : ∀ {other state}, after.mapNodeState.lookup other = some state →
      (state.vBlocksInFlight.map Prod.fst).Nodup) : after.Linked where
  listed := fun hash other it => by
    rw [hmap, eraseEntries_apply]
    by_cases hgone : ∃ entry ∈ state.vBlocksInFlight, entry.2.hash = hash
    · rw [if_pos hgone]
      refine ⟨fun hsome => (Option.some_ne_none _ hsome.symm).elim, ?_⟩
      rintro ⟨entry, hafter, hhash⟩
      obtain ⟨hother, hne⟩ := (hholds other it entry).mp hafter
      obtain ⟨⟨address, found⟩, hmem, hfound⟩ := hgone
      exact absurd (hlinked.onePeer hother ⟨state, hstate, hmem⟩ (hhash.trans hfound.symm)).1 hne
    rw [if_neg hgone, hlinked.listed]
    refine exists_congr fun entry => and_congr_left fun hhash => ?_
    rw [hholds]
    refine (and_iff_left_of_imp ?_).symm
    rintro hother rfl
    exact hgone ⟨(it, entry), (holds_iff hstate it entry).mp hother, hhash⟩
  fresh := fun hafter => hnext ▸ hlinked.fresh ((hholds _ _ _).mp hafter).1
  nodup := hnodup

theorem Linked.resumeIncoming (hlinked : requests.Linked)
    (hstate : requests.mapNodeState.lookup nodeid = some state) :
    (requests.resumeIncoming nodeid state).Linked ∧
      (∀ other, (requests.resumeIncoming nodeid state).excess other =
        if other = nodeid then some state.nBlocksInFlight else requests.excess other) ∧
      (requests.resumeIncoming nodeid state).surplus = requests.surplus + state.validated := by
  have hholds : ∀ other it entry, (requests.resumeIncoming nodeid state).Holds other it entry ↔
      requests.Holds other it entry ∧ other ≠ nodeid := by
    intro other it entry
    rw [Requests.resumeIncoming, holds_setState]
    by_cases hsame : other = nodeid
    · simp [hsame]
    rw [if_neg hsame]
    exact (and_iff_left hsame).symm
  have hempty : (CNodeState.vBlocksInFlight { state with vBlocksInFlight := [] } |>.map
      Prod.fst).Nodup := List.nodup_nil
  refine ⟨hlinked.dropped hstate hholds rfl rfl (hlinked.nodup_insert rfl hempty),
    fun other => ?_, ?_⟩
  · rw [Requests.resumeIncoming, excess_setState]
    by_cases hsame : other = nodeid
    · rw [if_pos hsame, if_pos hsame, CNodeState.excess]
      simp
    rw [if_neg hsame, if_neg hsame]
    rfl
  have hvalidated : validatedIn (requests.resumeIncoming nodeid state).mapNodeState.entries +
      state.validated = validatedIn requests.mapNodeState.entries + 0 :=
    validatedIn_setState hstate
  have hqueued : (requests.resumeIncoming nodeid state).nQueuedValidatedHeaders =
      requests.nQueuedValidatedHeaders := rfl
  rw [surplus, surplus]
  omega

/-- A peer leaves: the counter of validated entries stays as it is. -/
theorem Linked.finalizeNode (hlinked : requests.Linked)
    (hdone : requests.finalizeNode nodeid = some after) :
    ∃ state, requests.mapNodeState.lookup nodeid = some state ∧ after.Linked ∧
      (∀ other, after.excess other = if other = nodeid then none else requests.excess other) ∧
      after.surplus = requests.surplus + state.validated := by
  obtain ⟨state, hstate, hdone⟩ := Option.bind_eq_some_iff.mp hdone
  have hstates : after.mapNodeState = requests.mapNodeState.erase nodeid := by
    cases hdone
    rfl
  have hlookup : ∀ other, after.mapNodeState.lookup other =
      if other = nodeid then none else requests.mapNodeState.lookup other := by
    intro other
    rw [hstates]
    by_cases hsame : other = nodeid
    · rw [if_pos hsame, hsame]
      exact AList.lookup_erase _ _
    rw [if_neg hsame]
    exact AList.lookup_erase_ne hsame
  refine ⟨state, hstate, hlinked.dropped hstate (fun other it entry => ?_)
    (by cases hdone; rfl) (by cases hdone; rfl) (fun {other otherState} hother => ?_),
    fun other => ?_, ?_⟩
  · simp only [Holds, hlookup]
    by_cases hsame : other = nodeid <;> simp [hsame]
  · rw [hlookup] at hother
    split at hother
    · cases hother
    · exact hlinked.nodup hother
  · rw [excess, hlookup]
    split <;> rfl
  have hvalidated : validatedIn requests.mapNodeState.entries =
      state.validated + validatedIn (requests.mapNodeState.erase nodeid).entries :=
    validatedIn_kerase hstate
  have hqueued : after.nQueuedValidatedHeaders = requests.nQueuedValidatedHeaders := by
    cases hdone
    rfl
  rw [surplus, surplus, hstates]
  omega

/-! ## Steps -/

theorem Keeps.outcome (hkeeps : requests.Keeps after) {careful : Prop} (hcareful : careful) :
    after.Linked ∧ (requests.Balanced → (after.Balanced ↔ careful)) :=
  ⟨hkeeps.linked, fun hbalanced => iff_of_true (hkeeps.balanced_iff.mpr hbalanced) hcareful⟩

/-- Resuming leaves the counters right exactly when nothing was in flight from the peer. -/
theorem Linked.balanced_resumeIncoming (hlinked : requests.Linked)
    (hstate : requests.mapNodeState.lookup nodeid = some state) (hbalanced : requests.Balanced) :
    (requests.resumeIncoming nodeid state).Balanced ↔ state.vBlocksInFlight = [] := by
  obtain ⟨-, hexcess, hsurplus⟩ := hlinked.resumeIncoming hstate
  have hcounter : state.nBlocksInFlight = state.vBlocksInFlight.length :=
    ((hlinked.exact_iff).mpr hbalanced).counted hstate
  constructor
  · intro hafter
    have hzero : state.nBlocksInFlight = 0 := hafter.excess ((hexcess nodeid).trans (if_pos rfl))
    rw [hcounter] at hzero
    exact List.length_eq_zero_iff.mp (Int.natCast_eq_zero.mp hzero)
  intro hempty
  refine ⟨fun {other difference} hdifference => ?_, ?_⟩
  · rw [hexcess] at hdifference
    split at hdifference
    · rw [hcounter, hempty] at hdifference
      simpa [eq_comm] using hdifference
    · exact hbalanced.excess hdifference
  rw [hsurplus, hbalanced.surplus, CNodeState.validated, hempty]
  rfl

/-- A peer that leaves leaves the counters right exactly when none of its entries was
counted as validated. -/
theorem Linked.balanced_finalizeNode (hlinked : requests.Linked)
    (hdone : requests.finalizeNode nodeid = some after) (hbalanced : requests.Balanced) :
    after.Balanced ↔
      ∀ it entry, requests.Holds nodeid it entry → entry.fValidatedHeaders = false := by
  obtain ⟨state, hstate, -, hexcess, hsurplus⟩ := hlinked.finalizeNode hdone
  have hnone : after.Balanced ↔ state.validated = 0 := by
    constructor
    · intro hafter
      have hzero := hsurplus.symm.trans hafter.surplus
      rw [hbalanced.surplus, zero_add] at hzero
      exact Int.natCast_eq_zero.mp hzero
    intro hzero
    refine ⟨fun {other difference} hdifference => ?_, ?_⟩
    · rw [hexcess] at hdifference
      split at hdifference
      · cases hdifference
      · exact hbalanced.excess hdifference
    rw [hsurplus, hbalanced.surplus, hzero]
    rfl
  rw [hnone, CNodeState.validated, List.countP_eq_zero]
  constructor
  · exact fun hall it entry hholds =>
      Bool.eq_false_iff.mpr (hall _ ((holds_iff hstate it entry).mp hholds))
  exact fun hall entry hmem =>
    Bool.eq_false_iff.mp (hall entry.1 entry.2 ((holds_iff hstate _ _).mpr hmem))

/-- A new peer has nothing in flight. -/
theorem Linked.initializeNode (hlinked : requests.Linked) (nodeid : NodeId) :
    (requests.initializeNode nodeid).Linked ∧
      (requests.Balanced → ((requests.initializeNode nodeid).Balanced ↔ True)) := by
  rw [Requests.initializeNode]
  cases hlookup : (requests.setNode nodeid CNode.new).mapNodeState.lookup nodeid with
  | some state =>
    refine Keeps.outcome ?_ trivial
    exact hlinked.keeps.of_eq rfl rfl rfl rfl
  | none =>
    have habsent : nodeid ∉ requests.mapNodeState := AList.lookup_eq_none.mp hlookup
    have hempty : ((CNodeState.new : CNodeState B).vBlocksInFlight.map Prod.fst).Nodup :=
      List.nodup_nil
    refine ⟨hlinked.congr (fun other it entry => ?_) rfl (Nat.le_refl _)
      (hlinked.nodup_insert rfl hempty), fun hbalanced => iff_of_true ⟨?_, ?_⟩ trivial⟩
    · rw [holds_setState]
      by_cases hsame : other = nodeid
      · subst hsame
        refine iff_of_false (by simp [CNodeState.new]) ?_
        rintro ⟨state, hstate, -⟩
        exact Option.some_ne_none _ (hstate.symm.trans hlookup)
      rw [if_neg hsame]
      rfl
    · intro other difference hdifference
      rw [excess_setState] at hdifference
      split at hdifference
      · cases hdifference
        rfl
      · exact hbalanced.excess hdifference
    have hvalidated : validatedIn (requests.mapNodeState.insert nodeid CNodeState.new).entries =
        validatedIn requests.mapNodeState.entries := by
      rw [AList.entries_insert_of_notMem habsent]
      exact Nat.zero_add _
    calc surplus ((requests.setNode nodeid CNode.new).setState nodeid CNodeState.new)
        = requests.nQueuedValidatedHeaders - validatedIn
            (requests.mapNodeState.insert nodeid CNodeState.new).entries := rfl
      _ = requests.surplus := by rw [hvalidated, surplus]
      _ = 0 := hbalanced.surplus

section Steps

variable [DecidableEq B] {sending : Sending B} {action : Step B}

/-- What is sent after entries may have been dropped. -/
theorem requestBlocks_keeps {pto : CNode} {fDisconnect : Bool}
    (hdone : requests.requestBlocks sending nodeid pto state fDisconnect = some after)
    (hresumed : (if pto.fLastIgnoreIncoming then requests.resumeIncoming nodeid state
      else requests).Linked) :
    (if pto.fLastIgnoreIncoming then requests.resumeIncoming nodeid state
      else requests).Keeps after := by
  obtain ⟨current, -, hdone⟩ := Option.bind_eq_some_iff.mp hdone
  obtain ⟨sent, hsent, hafter⟩ := Option.map_eq_some_iff.mp hdone
  subst hafter
  split at hsent
  · cases hsent
    exact hresumed.keeps.of_eq rfl rfl rfl rfl
  exact (hresumed.getData hsent).of_eq rfl rfl rfl rfl

/-- `SendMessages`: only resuming drops entries. -/
theorem Linked.sendMessages (hlinked : requests.Linked)
    (hdone : requests.sendMessages sending nodeid = some after) :
    after.Linked ∧ (requests.Balanced →
      (after.Balanced ↔ requests.Careful (.sendMessages sending nodeid))) := by
  obtain ⟨pto, hpto, hdone⟩ := Option.bind_eq_some_iff.mp hdone
  obtain ⟨state, hstate, hdone⟩ := Option.bind_eq_some_iff.mp hdone
  cases hpaused : requests.pausedIncoming with
  | true =>
    rw [hpaused] at hdone
    cases hdone
    refine Keeps.outcome ?_ fun hrunning => ?_
    · exact hlinked.keeps.of_eq rfl rfl rfl rfl
    rw [hpaused] at hrunning
    cases hrunning
  | false =>
    rw [hpaused] at hdone
    have hsent := requestBlocks_keeps hdone
    cases hlast : pto.fLastIgnoreIncoming with
    | false =>
      rw [hlast] at hsent
      refine (hsent hlinked).outcome fun _ ⟨other, hother, hset⟩ => ?_
      rw [hpto] at hother
      cases hother
      rw [hlast] at hset
      cases hset
    | true =>
      rw [hlast] at hsent
      have hkeeps := hsent (hlinked.resumeIncoming hstate).1
      refine ⟨hkeeps.linked, fun hbalanced => hkeeps.balanced_iff.trans
        ((hlinked.balanced_resumeIncoming hstate hbalanced).trans ?_)⟩
      constructor
      · intro hempty _ _ it entry hholds
        rw [holds_iff hstate, hempty] at hholds
        cases hholds
      intro hcareful
      refine List.eq_nil_iff_forall_not_mem.mpr fun entry hmem => ?_
      exact hcareful hpaused ⟨pto, hpto, hlast⟩ entry.1 entry.2 ⟨state, hstate, hmem⟩

theorem Linked.step (hlinked : requests.Linked) (hdone : step action requests = some after) :
    after.Linked ∧ (requests.Balanced → (after.Balanced ↔ requests.Careful action)) := by
  cases action with
  | initializeNode nodeid =>
    cases hdone
    exact hlinked.initializeNode nodeid
  | finalizeNode nodeid =>
    exact ⟨(hlinked.finalizeNode hdone).choose_spec.2.1, hlinked.balanced_finalizeNode hdone⟩
  | setFlags nodeid fClient fDisconnect =>
    obtain ⟨node, -, hdone⟩ := Option.bind_eq_some_iff.mp hdone
    cases hdone
    refine Keeps.outcome ?_ trivial
    exact hlinked.keeps.of_eq rfl rfl rfl rfl
  | updateBlockAvailability view nodeid hash =>
    obtain ⟨state, hstate, hdone⟩ := Option.bind_eq_some_iff.mp hdone
    cases hdone
    have hsame := sameEntries_updateBlockAvailability view hash state
    exact (hlinked.setState hstate hsame.entries hsame.counter).outcome trivial
  | markBlockAsInFlight nodeid hash pindex time =>
    exact (hlinked.markBlockAsInFlight hdone).outcome trivial
  | markBlockAsReceived hash => exact (hlinked.markBlockAsReceived hdone).1.outcome trivial
  | pauseIncoming paused =>
    cases hdone
    refine Keeps.outcome ?_ trivial
    exact hlinked.keeps.of_eq rfl rfl rfl rfl
  | sendMessages sending nodeid => exact hlinked.sendMessages hdone

end Steps

/-! ## Runs -/

theorem linked_initial : (initial : Requests B).Linked where
  listed := fun hash nodeid it => by
    refine iff_of_false (by simp [initial]) ?_
    rintro ⟨-, ⟨state, hstate, -⟩, -⟩
    cases hstate
  fresh := fun ⟨state, hstate, _⟩ => by cases hstate
  nodup := fun hstate => by cases hstate

theorem balanced_initial : (initial : Requests B).Balanced where
  excess := fun hdifference => by cases hdifference
  surplus := rfl

variable [DecidableEq B] {history : List (Requests B × Step B)}

/-- In every run the map has the entries of the lists. -/
theorem Run.linked (hrun : Run history requests) :
    requests.Linked ∧ ∀ past ∈ history, past.1.Linked := by
  induction hrun with
  | start => exact ⟨linked_initial, fun past hpast => absurd hpast List.not_mem_nil⟩
  | step _ hstep ih =>
    refine ⟨(ih.1.step hstep).1, fun past hpast => ?_⟩
    rcases List.mem_append.mp hpast with hpast | hpast
    · exact ih.2 past hpast
    rw [List.mem_singleton.mp hpast]
    exact ih.1

def joining : List (Requests Unit × Step Unit) := [(initial, .initializeNode 0)]

theorem Run.foldlM {actions : List (Step B)} :
    ∀ {history : List (Requests B × Step B)} {requests : Requests B}, Run history requests →
      actions.foldlM (fun requests action => Requests.step action requests) requests = some after →
        ∃ history, Run history after := by
  induction actions with
  | nil =>
    intro history requests hrun hdone
    cases hdone
    exact ⟨history, hrun⟩
  | cons action actions ih =>
    intro history requests hrun hdone
    obtain ⟨middle, hstep, hrest⟩ := Option.bind_eq_some_iff.mp hdone
    exact ih (hrun.step hstep) hrest

/-! ## Traffic is paused and resumed -/

def quiet (nNow : ℤ) : Sending Unit where
  view := {
    tree := {
      pprev := fun _ => none
      height := fun _ => 0
      chainWork := fun _ => 1
      canMine := fun _ => 1
      heightMinedByMe := fun _ => 0
      sequenceId := fun _ => 0
      haveData := fun _ => true
      chainTx := fun _ => 1
      height_pprev := fun hparent => Option.some_ne_none _ hparent.symm |>.elim
      height_root := fun _ => rfl
      root_unique := fun _ _ => rfl }
    hash := fun _ => 1
    validTree := fun _ => true
    mapBlockIndex := fun hash => if hash = 1 then some () else none
    chainActive := [()]
    setBannedTxBlocks := []
    pindexLockedBlock := none }
  nNow := nNow
  timeMicros := fun _ => nNow
  targetSpacing := 15
  blockWaiting := false

def resumedSteps : List (Step Unit) :=
  .initializeNode 0 ::
    (List.range 16).map (fun i => .markBlockAsInFlight 0 (BitVec.ofNat 256 (i + 2)) none 1) ++
    [.pauseIncoming true, .sendMessages (quiet 2) 0, .pauseIncoming false,
      .sendMessages (quiet 3) 0]

end Requests

end Amberchain.Download
