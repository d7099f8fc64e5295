import Mathlib.Data.Finset.Card

/-!
# The latest vote of each voter

A list of votes runs from the newest to the oldest, while each vote carries a
time of its own.  A voter stands by the vote with the latest time, and by the
newer one of two votes with the same time.
-/

namespace Amberchain.LatestVote

variable {Vote Voter : Type*} [DecidableEq Voter] (voter : Vote → Voter) (time : Vote → ℕ)

def latest (who : Voter) : List Vote → Option Vote
  | [] => none
  | vote :: older =>
    match latest who older with
    | none => if voter vote = who then some vote else none
    | some other =>
      if voter vote = who ∧ time other ≤ time vote then some vote else some other

variable {voter time}

variable {who : Voter} {votes : List Vote}

theorem voter_latest {vote : Vote}
    (hlatest : latest voter time who votes = some vote) : voter vote = who := by
  induction votes with
  | nil => cases hlatest
  | cons first older ih =>
    rw [latest] at hlatest
    cases holder : latest voter time who older with
    | none =>
      rw [holder] at hlatest
      simp only [Option.ite_none_right_eq_some, Option.some.injEq] at hlatest
      rw [← hlatest.2]
      exact hlatest.1
    | some other =>
      rw [holder] at hlatest
      dsimp only at hlatest
      by_cases hfirst : voter first = who ∧ time other ≤ time first
      · rw [if_pos hfirst, Option.some.injEq] at hlatest
        rw [← hlatest]
        exact hfirst.1
      rw [if_neg hfirst] at hlatest
      exact ih (holder.trans hlatest)

theorem latest_eq_none_iff :
    latest voter time who votes = none ↔ ∀ vote ∈ votes, voter vote ≠ who := by
  induction votes with
  | nil => simp [latest]
  | cons first older ih =>
    rw [latest, List.forall_mem_cons, ← ih]
    cases latest voter time who older with
    | none => by_cases hfirst : voter first = who <;> simp [hfirst]
    | some other =>
      dsimp only
      split <;> simp

/-- The vote that a voter stands by is later than its newer votes and not
earlier than its older ones. -/
theorem latest_eq_some {vote : Vote} (hlatest : latest voter time who votes = some vote) :
    ∃ newer older, votes = newer ++ vote :: older ∧
      (∀ other ∈ newer, voter other = who → time other < time vote) ∧
      ∀ other ∈ older, voter other = who → time other ≤ time vote := by
  induction votes generalizing vote with
  | nil => cases hlatest
  | cons first older ih =>
    rw [latest] at hlatest
    cases holder : latest voter time who older with
    | none =>
      rw [holder] at hlatest
      simp only [Option.ite_none_right_eq_some, Option.some.injEq] at hlatest
      obtain ⟨-, rfl⟩ := hlatest
      exact ⟨[], older, rfl, fun _ hmem => absurd hmem List.not_mem_nil,
        fun other hmem hvoter => absurd hvoter (latest_eq_none_iff.mp holder other hmem)⟩
    | some standing =>
      rw [holder] at hlatest
      dsimp only at hlatest
      by_cases hfirst : voter first = who ∧ time standing ≤ time first
      · rw [if_pos hfirst, Option.some.injEq] at hlatest
        subst hlatest
        obtain ⟨newer, rest, rfl, hnewer, hrest⟩ := ih holder
        refine ⟨[], _, rfl, fun _ hmem => absurd hmem List.not_mem_nil, fun other hmem hvoter => ?_⟩
        rcases List.mem_append.mp hmem with hmem | hmem
        · exact (hnewer other hmem hvoter).le.trans hfirst.2
        rcases List.mem_cons.mp hmem with rfl | hmem
        · exact hfirst.2
        · exact (hrest other hmem hvoter).trans hfirst.2
      rw [if_neg hfirst, Option.some.injEq] at hlatest
      subst hlatest
      obtain ⟨newer, rest, rfl, hnewer, hrest⟩ := ih holder
      refine ⟨first :: newer, rest, rfl, fun other hmem hvoter => ?_, hrest⟩
      rcases List.mem_cons.mp hmem with rfl | hmem
      · exact not_le.mp fun hle => hfirst ⟨hvoter, hle⟩
      exact hnewer other hmem hvoter

/-- One more vote behind the oldest one replaces the standing vote of its voter
when its time is later. -/
theorem latest_concat (who : Voter) (votes : List Vote) (vote : Vote) :
    latest voter time who (votes ++ [vote]) =
      match latest voter time who votes with
      | none => if voter vote = who then some vote else none
      | some other =>
        if voter vote = who ∧ time other < time vote then some vote else some other := by
  induction votes with
  | nil => rfl
  | cons first older ih =>
    rw [List.cons_append, latest, ih, latest]
    by_cases hvote : voter vote = who
    · cases latest voter time who older with
      | none =>
        by_cases hfirst : voter first = who
        · by_cases hle : time vote ≤ time first
          · simp [hvote, hfirst, hle, not_lt.mpr hle]
          · simp [hvote, hfirst, hle, not_le.mp hle]
        · simp [hvote, hfirst]
      | some other =>
        by_cases hlater : time other < time vote
        · by_cases hfirst : voter first = who ∧ time other ≤ time first
          · by_cases hle : time vote ≤ time first
            · simp [hvote, hfirst, hlater, hle, not_lt.mpr hle]
            · simp [hvote, hfirst, hlater, hle, not_le.mp hle]
          have hnot : ¬ (voter first = who ∧ time vote ≤ time first) :=
            fun hboth => hfirst ⟨hboth.1, hlater.le.trans hboth.2⟩
          simp [hvote, hfirst, hlater, hnot]
        by_cases hfirst : voter first = who ∧ time other ≤ time first
        · have hle : time vote ≤ time first := (not_lt.mp hlater).trans hfirst.2
          simp [hvote, hfirst, hlater, not_lt.mpr hle]
        · simp [hvote, hfirst, hlater]
    cases latest voter time who older with
    | none => by_cases hfirst : voter first = who <;> simp [hvote, hfirst]
    | some other =>
      by_cases hfirst : voter first = who ∧ time other ≤ time first <;> simp [hvote, hfirst]

theorem latest_concat_of_ne {vote : Vote} (hne : voter vote ≠ who) (votes : List Vote) :
    latest voter time who (votes ++ [vote]) = latest voter time who votes := by
  rw [latest_concat]
  cases latest voter time who votes with
  | none => exact if_neg hne
  | some other => exact if_neg fun hboth => hne hboth.1

variable (voter time)

def supporters (agrees : Vote → Bool) (votes : List Vote) : Finset Voter :=
  (votes.map voter).toFinset.filter fun who => (latest voter time who votes).any agrees

variable {voter time}

theorem mem_supporters {agrees : Vote → Bool} :
    who ∈ supporters voter time agrees votes ↔ (latest voter time who votes).any agrees = true := by
  rw [supporters, Finset.mem_filter, and_iff_right_iff_imp]
  intro hagrees
  rw [List.mem_toFinset, List.mem_map]
  by_contra hnone
  have hlatest : latest voter time who votes = none :=
    latest_eq_none_iff.mpr fun vote hmem heq => hnone ⟨vote, hmem, heq⟩
  rw [hlatest] at hagrees
  cases hagrees

/-- Two sets that differ at one element at most differ by its membership. -/
theorem card_add_of_agree {first second : Finset Voter}
    (hagree : ∀ other, other ≠ who → (other ∈ first ↔ other ∈ second)) :
    first.card + (if who ∈ second then 1 else 0) = second.card + if who ∈ first then 1 else 0 := by
  have herase : first.erase who = second.erase who := by
    ext other
    rw [Finset.mem_erase, Finset.mem_erase]
    exact and_congr_right fun hne => hagree other hne
  have hcard (voters : Finset Voter) :
      (voters.erase who).card + (if who ∈ voters then 1 else 0) = voters.card := by
    by_cases hmem : who ∈ voters
    · rw [if_pos hmem]
      exact Finset.card_erase_add_one hmem
    rw [if_neg hmem, Finset.erase_eq_of_notMem hmem]
    rfl
  have hfirst := hcard first
  have hsecond := hcard second
  rw [herase] at hfirst
  omega

theorem card_supporters_concat (agrees : Vote → Bool) (votes : List Vote) (vote : Vote) :
    (supporters voter time agrees (votes ++ [vote])).card +
        (if (latest voter time (voter vote) votes).any agrees = true then 1 else 0) =
      (supporters voter time agrees votes).card +
        if (latest voter time (voter vote) (votes ++ [vote])).any agrees = true then 1 else 0 := by
  have hagree : ∀ other, other ≠ voter vote →
      (other ∈ supporters voter time agrees (votes ++ [vote]) ↔
        other ∈ supporters voter time agrees votes) := by
    intro other hne
    rw [mem_supporters, mem_supporters, latest_concat_of_ne hne.symm]
  simpa only [mem_supporters] using card_add_of_agree hagree

theorem supporters_cons_congr {agrees : Vote → Bool} {vote other : Vote}
    (hvoter : voter vote = voter other) (htime : time vote = time other)
    (hagrees : agrees vote = agrees other) (older : List Vote) :
    supporters voter time agrees (vote :: older) =
      supporters voter time agrees (other :: older) := by
  ext who
  rw [mem_supporters, mem_supporters, latest, latest, hvoter, htime]
  cases latest voter time who older with
  | none => by_cases hwho : voter other = who <;> simp [hwho, hagrees]
  | some standing =>
    by_cases hwho : voter other = who ∧ time standing ≤ time other <;> simp [hwho, hagrees]

end Amberchain.LatestVote
