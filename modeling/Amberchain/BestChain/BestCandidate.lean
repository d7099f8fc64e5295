import Amberchain.BestChain.MostWorkRounds
import Mathlib.Data.Fin.VecNotation

/-!
# The best candidate

`FindMostWorkChain` comes to an end with the best candidate that has a right path, or
runs forever: a candidate off the locked block's chain is moved to a block that is not
in the set, and when that has something wrong on its path nothing is removed.
-/

namespace Amberchain.BestChain

variable {B : Type}

namespace ChainEnv

open BlockTree

variable [LinearOrder B] {env : ChainEnv B} {start state next : Selection B} {block : B}

/-- What the callers of `FindMostWorkChain` maintain: candidates and the blocks before them
have their data. -/
def Fits (env : ChainEnv B) (start : Selection B) : Prop :=
  ∀ candidate ∈ start.candidates, ∀ block, Ancestor env.tree block candidate → env.HasData block

/-- A candidate off the locked chain is moved to a block with a clean path, or to one that is
not better than another candidate with a clean path. -/
def LockSafe (env : ChainEnv B) (start : Selection B) : Prop :=
  ∀ candidate ∈ start.candidates, ∀ block, env.adjust candidate = some block →
    block ≠ candidate → env.Clean start block ∨
      ∃ other ∈ start.candidates, ∃ better, env.adjust other = some better ∧
        env.Clean start better ∧ start.passed better = true ∧ env.less block better = true

/-- A candidate off the locked chain is moved to a checked block with something wrong on its
path, and so has everything that is better. -/
def Stuck (env : ChainEnv B) (start : Selection B) : Prop :=
  ∃ candidate ∈ start.candidates, ∃ block, env.adjust candidate = some block ∧
    block ≠ candidate ∧ start.passed block = true ∧ env.WrongPath start block ∧
    ∀ other ∈ start.candidates, ∀ better, env.adjust other = some better →
      env.less block better = true → env.WrongPath start better

def Checked (env : ChainEnv B) (start : Selection B) : Prop :=
  ∀ candidate ∈ start.candidates, ∀ block, env.adjust candidate = some block →
    start.passed block = true

def Right (env : ChainEnv B) (state : Selection B) (block : B) : Prop :=
  ∀ other ∈ env.tree.path env.active block,
    env.tree.haveData other = true ∧ ¬ env.Wrong state other

/-- The choice ends, with no block or with the best one of the adjusted candidates whose
path is right. -/
def Chooses (env : ChainEnv B) (start : Selection B) : Prop :=
  ∃ rounds result final, env.findMostWorkChain rounds start = .returned result final ∧
    ∀ block ∈ result, env.Right final block ∧
      (∃ candidate ∈ start.candidates, env.adjust candidate = some block) ∧
      ∀ candidate ∈ start.candidates, ∀ other, env.adjust candidate = some other →
        env.Right final other → env.less block other = false

theorem Fits.path (hfits : env.Fits start) {candidate : B} (hcandidate : candidate ∈ start.candidates)
    (hblock : env.adjust candidate = some block) :
    ∀ other ∈ env.tree.path env.active block, env.HasData other := by
  intro other hother
  obtain ⟨found, hfound, hancestor⟩ := @adjust_spec B _ env candidate
  rw [hblock] at hfound
  cases hfound
  exact hfits candidate hcandidate other ((ancestor_of_mem_path hother).trans hancestor)

/-- What a round comes to: it returns nothing, returns the greatest block, or goes on without
the chain of one with something wrong. -/
inductive Round (env : ChainEnv B) (start state next : Selection B) (temp : List B) (rounds : ℕ) :
    Prop where
  | none (hempty : temp = [])
      (hresult : env.findMostWorkChain (rounds + 1) state = .returned none next)
  | some (block : B) (hgreatest : Greatest env temp block)
      (hright : ∀ other ∈ env.tree.path env.active block, ¬ env.Wrong next other)
      (hresult : env.findMostWorkChain (rounds + 1) state = .returned (some block) next)
  | again (block : B) (above rest : List B) (invalid : B) (hgreatest : Greatest env temp block)
      (hpath : env.tree.path env.active block = above ++ invalid :: rest)
      (hwrong : env.Wrong next invalid)
      (hresult : env.findMostWorkChain (rounds + 1) state =
        env.findMostWorkChain rounds (next.removeChain above invalid))

theorem round_spec (hfits : env.Fits start) (hstate : Follows env start state) (rounds : ℕ) :
    ∃ next temp, Collected env state.candidates [] state next temp ∧
      Round env start state next temp rounds := by
  obtain ⟨next, temp, hcollect, hcollected⟩ := @collect_spec B _ env state.candidates state []
  refine ⟨next, temp, hcollected, ?_⟩
  have hstep := Eq.refl (env.findMostWorkChain (rounds + 1) state)
  conv at hstep =>
    rhs
    rw [findMostWorkChain, hcollect]
  dsimp only at hstep
  cases hbest : env.rbegin temp with
  | none =>
    rw [hbest] at hstep
    refine .none ?_ hstep
    by_contra hne
    obtain ⟨other, hother⟩ := List.exists_mem_of_ne_nil temp hne
    obtain ⟨best, hsome⟩ := @rbegin_isSome_of_mem B _ env _ _ hother
    rw [hbest] at hsome
    cases hsome
  | some block =>
    rw [hbest] at hstep
    dsimp only at hstep
    have hgreatest := greatest_of_rbegin hbest
    obtain ⟨candidate, hcandidate, hadjust⟩ :
        ∃ candidate ∈ state.candidates, env.adjust candidate = Option.some block := by
      cases hcollected.mem block hgreatest.mem with
      | inl hnil => cases hnil
      | inr hfound => exact hfound
    have htested := @testPath_spec B env next (env.tree.path env.active block) []
      (hfits.path (hstate.candidates candidate hcandidate) hadjust)
    generalize env.testPath next [] (env.tree.path env.active block) = result at hstep htested
    cases htested with
    | valid hright => exact .some block hgreatest hright hstep
    | invalid front rest invalid hpath hwrong =>
      exact .again block front rest invalid hgreatest hpath hwrong hstep

theorem Collected.source {temp : List B} (hcollected : Collected env state.candidates [] state next temp)
    (hblock : block ∈ temp) : ∃ candidate ∈ state.candidates, env.adjust candidate = some block := by
  cases hcollected.mem block hblock with
  | inl hnil => cases hnil
  | inr hfound => exact hfound

/-- When candidates off the locked chain are safe, a wrong choice is a candidate itself. -/
theorem mem_candidates_of_wrong {temp : List B} (hsafe : env.LockSafe start)
    (hstate : Follows env start state)
    (hcollected : Collected env state.candidates [] state next temp)
    (hgreatest : Greatest env temp block) (hwrong : env.WrongPath next block) :
    block ∈ state.candidates := by
  obtain ⟨candidate, hcandidate, hadjust⟩ := hcollected.source hgreatest.mem
  have hnext := hstate.collected hcollected
  by_cases hsame : block = candidate
  · rw [hsame]
    exact hcandidate
  cases hsafe candidate (hstate.candidates candidate hcandidate) block hadjust hsame with
  | inl hclean => exact absurd hwrong (hnext.clean block hclean)
  | inr hbetter =>
    obtain ⟨other, hother, better, hbetter, hclean, hpassed, hless⟩ := hbetter
    have hstill : other ∈ state.candidates := by
      by_contra hgone
      obtain ⟨hown, hwrongOther⟩ := hstate.gone other hother hgone
      rw [hown] at hbetter
      cases hbetter
      exact hstate.clean other hclean hwrongOther
    have hmem := (hcollected.found other hstill better hbetter).1 (hstate.passed better hpassed)
    rw [hgreatest.le better hmem] at hless
    cases hless

theorem right_of_returned {temp : List B} (hfits : env.Fits start)
    (hchecks : env.Decides ∨ env.Checked start) (hstate : Follows env start state)
    (hcollected : Collected env state.candidates [] state next temp)
    (hgreatest : Greatest env temp block)
    (hright : ∀ other ∈ env.tree.path env.active block, ¬ env.Wrong next other) :
    env.Right next block ∧ (∃ candidate ∈ start.candidates, env.adjust candidate = some block) ∧
      ∀ candidate ∈ start.candidates, ∀ other, env.adjust candidate = some other →
        env.Right next other → env.less block other = false := by
  obtain ⟨source, hsource, hadjust⟩ := hcollected.source hgreatest.mem
  have hdata := hfits.path (hstate.candidates source hsource) hadjust
  refine ⟨fun other hother => ⟨?_, hright other hother⟩,
    ⟨source, hstate.candidates source hsource, hadjust⟩,
    fun candidate hcandidate other hother hotherRight => ?_⟩
  · exact (Bool.and_eq_true_iff.mp (hdata other hother)).1
  by_cases hstill : candidate ∈ state.candidates
  · obtain ⟨hpassed, hdecided⟩ := hcollected.found candidate hstill other hother
    have hplace : other ∈ temp ∨ next.failedValid other = true ∧ env.active other = false :=
      hchecks.elim hdecided fun hchecked =>
        .inl (hpassed (hstate.passed other (hchecked candidate hcandidate other hother)))
    cases hplace with
    | inl hmem => exact hgreatest.le other hmem
    | inr hfailed =>
      have hself : other ∈ env.tree.path env.active other := self_mem_path (path_ne_nil hfailed.2)
      refine absurd ?_ (hotherRight other hself).2
      unfold Wrong Selection.failed
      rw [hfailed.1, Bool.true_or, Bool.true_or]
  obtain ⟨hown, hwrong⟩ := hstate.gone candidate hcandidate hstill
  rw [hown] at hother
  cases hother
  obtain ⟨bad, hbad, hbadWrong⟩ := hwrong.mono hcollected.failed
  exact absurd hbadWrong (hotherRight bad hbad).2

theorem chooses_of_follows (hfits : env.Fits start) (hsafe : env.LockSafe start)
    (hchecks : env.Decides ∨ env.Checked start) :
    ∀ (count : ℕ) (state : Selection B), Follows env start state → state.candidates.length ≤ count →
      ∃ result final, env.findMostWorkChain (count + 1) state = .returned result final ∧
        ∀ block ∈ result, env.Right final block ∧
          (∃ candidate ∈ start.candidates, env.adjust candidate = some block) ∧
          ∀ candidate ∈ start.candidates, ∀ other, env.adjust candidate = some other →
            env.Right final other → env.less block other = false := by
  intro count
  induction count with
  | zero =>
    intro state hstate hcount
    obtain ⟨next, temp, hcollected, hround⟩ := round_spec hfits hstate 0
    have hnone : state.candidates = [] := List.length_eq_zero_iff.mp (Nat.le_zero.mp hcount)
    cases hround with
    | none _ hresult => exact ⟨none, next, hresult, fun block hblock => by cases hblock⟩
    | some block hgreatest =>
      obtain ⟨candidate, hcandidate, _⟩ := hcollected.source hgreatest.mem
      rw [hnone] at hcandidate
      cases hcandidate
    | again block _ _ _ hgreatest =>
      obtain ⟨candidate, hcandidate, _⟩ := hcollected.source hgreatest.mem
      rw [hnone] at hcandidate
      cases hcandidate
  | succ count ih =>
    intro state hstate hcount
    obtain ⟨next, temp, hcollected, hround⟩ := round_spec hfits hstate (count + 1)
    cases hround with
    | none _ hresult => exact ⟨none, next, hresult, fun block hblock => by cases hblock⟩
    | some block hgreatest hright hresult =>
      refine ⟨some block, next, hresult, fun found hfound => ?_⟩
      cases hfound
      exact right_of_returned hfits hchecks hstate hcollected hgreatest hright
    | again block above rest invalid hgreatest hpath hwrong hresult =>
      obtain ⟨candidate, _, hadjust⟩ := hcollected.source hgreatest.mem
      have hnext := (hstate.collected hcollected).removeChain hpath hwrong hadjust
      have hself : block ∈ above ++ [invalid] := self_mem_of_append hpath
      have hmem : block ∈ state.candidates :=
        mem_candidates_of_wrong hsafe hstate hcollected hgreatest
          (wrongPath_of_above hpath hwrong hself)
      have hless : (next.removeChain above invalid).candidates.length ≤ count := by
        have hshort : (next.removeChain above invalid).candidates.length <
            next.candidates.length := by
          refine List.length_filter_lt_length_iff_exists.mpr ⟨block, ?_, ?_⟩
          · rw [hcollected.same]
            exact hmem
          · simp [hself]
        rw [hcollected.same] at hshort
        omega
      rw [hresult]
      exact ih _ hnext hless

/-- A stuck choice goes on forever: the candidate stays, and with it the wrong block that it
is moved to. -/
theorem unfinished_of_stuck (hfits : env.Fits start) (hstuck : env.Stuck start) :
    ∀ rounds : ℕ, env.findMostWorkChain rounds start = .unfinished := by
  obtain ⟨candidate, hcandidate, block, hadjust, hne, hpassed, hwrong, hbetter⟩ := hstuck
  have hrun : ∀ (rounds : ℕ) (state : Selection B), Follows env start state →
      candidate ∈ state.candidates → env.findMostWorkChain rounds state = .unfinished := by
    intro rounds
    induction rounds with
    | zero => exact fun state _ _ => rfl
    | succ rounds ih =>
      intro state hstate hmem
      obtain ⟨next, temp, hcollected, hround⟩ := round_spec hfits hstate rounds
      have hnext := hstate.collected hcollected
      have htemp : block ∈ temp :=
        (hcollected.found candidate hmem block hadjust).1 (hstate.passed block hpassed)
      cases hround with
      | none hempty =>
        rw [hempty] at htemp
        cases htemp
      | some chosen hgreatest hright =>
        have hchosenWrong : env.WrongPath start chosen := by
          by_cases hsame : chosen = block
          · rw [hsame]
            exact hwrong
          obtain ⟨other, hother, hotherAdjust⟩ := hcollected.source hgreatest.mem
          exact hbetter other (hstate.candidates other hother) chosen hotherAdjust
            (less_of_not_less (hgreatest.le block htemp) hsame)
        obtain ⟨bad, hbad, hbadWrong⟩ := hchosenWrong.mono hnext.failed
        exact absurd hbadWrong (hright bad hbad)
      | again chosen above rest invalid hgreatest hpath hinvalid hresult =>
        obtain ⟨other, _, hotherAdjust⟩ := hcollected.source hgreatest.mem
        rw [hresult]
        refine ih _ (hnext.removeChain hpath hinvalid hotherAdjust) ?_
        refine List.mem_filter.mpr ⟨?_, decide_eq_true fun habove => ?_⟩
        · rw [hcollected.same]
          exact hmem
        exact not_ancestor_of_adjust hadjust hne hotherAdjust
          (ancestor_of_mem_path (mem_path_of_above hpath habove))
  exact fun rounds => hrun rounds start (.refl start) hcandidate

theorem wrongPath_of_not_clean (hchecked : env.Checked start) (hclean : ¬ env.Clean start block) :
    env.WrongPath start block := by
  by_contra hright
  refine hclean fun other hmem => ⟨fun hwrong => hright ⟨other, hmem, hwrong⟩, fun hsource => ?_⟩
  obtain ⟨candidate, hcandidate, hadjust⟩ := hsource
  exact .inl (hchecked candidate hcandidate other hadjust)

theorem stuck_of_not_lockSafe (hchecked : env.Checked start) (hsafe : ¬ env.LockSafe start) :
    env.Stuck start := by
  unfold LockSafe at hsafe
  push Not at hsafe
  obtain ⟨candidate, hcandidate, block, hadjust, hne, hclean, hnone⟩ := hsafe
  refine ⟨candidate, hcandidate, block, hadjust, hne, hchecked candidate hcandidate block hadjust,
    wrongPath_of_not_clean hchecked hclean, fun other hother better hbetter hless => ?_⟩
  by_contra hright
  refine hnone other hother better hbetter ?_ (hchecked other hother better hbetter) hless
  by_contra hnot
  exact hright (wrongPath_of_not_clean hchecked hnot)

theorem chooses_of_lockSafe (hfits : env.Fits start) (hsafe : env.LockSafe start)
    (hchecks : env.Decides ∨ env.Checked start) : env.Chooses start := by
  obtain ⟨result, final, hresult, hbest⟩ :=
    chooses_of_follows hfits hsafe hchecks _ start (.refl start) (Nat.le_refl _)
  exact ⟨_, result, final, hresult, hbest⟩

theorem not_chooses_of_stuck (hfits : env.Fits start) (hstuck : env.Stuck start) :
    ¬ env.Chooses start := by
  rintro ⟨rounds, result, final, hresult, _⟩
  rw [unfinished_of_stuck hfits hstuck rounds] at hresult
  cases hresult

end ChainEnv

/-- A block after genesis with two children. -/
def forkTree : BlockTree (Fin 4) where
  pprev := ![none, some 0, some 1, some 1]
  height := ![0, 1, 2, 2]
  chainWork := ![1, 2, 3, 3]
  canMine := fun _ => 1
  heightMinedByMe := fun _ => 0
  sequenceId := fun block => block
  haveData := fun _ => true
  chainTx := fun _ => 1
  height_pprev := by decide
  height_root := by decide
  root_unique := by decide

def forkEnv : ChainEnv (Fin 4) where
  tree := forkTree
  multichain := true
  active := fun block => block = 0
  locked := some 2
  banned := fun _ => false
  precheckOff := false
  verify := fun _ block => (true, fun other => other = block)

def forkStart (failed : Fin 4 → Bool) : Selection (Fin 4) where
  candidates := [0, 3]
  failedValid := failed
  failedChild := fun _ => false
  passed := fun _ => true
  calls := 0

theorem fits_forkStart (failed : Fin 4 → Bool) : forkEnv.Fits (forkStart failed) :=
  fun _ _ _ _ => rfl

theorem adjust_forkEnv {candidate block : Fin 4} {failed : Fin 4 → Bool}
    (hcandidate : candidate ∈ (forkStart failed).candidates)
    (hadjust : forkEnv.adjust candidate = some block) : block = 0 ∧ candidate = 0 ∨ block = 1 := by
  cases List.mem_cons.mp hcandidate with
  | inl heq =>
    rw [heq] at hadjust
    exact .inl ⟨(Option.some.inj hadjust).symm, heq⟩
  | inr htail =>
    rw [List.mem_singleton.mp htail] at hadjust
    exact .inr (Option.some.inj hadjust).symm

end Amberchain.BestChain
