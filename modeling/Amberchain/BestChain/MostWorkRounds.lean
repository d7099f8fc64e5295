import Amberchain.BestChain.MostWork

/-!
# Rounds of choosing the best chain

What all rounds keep: candidates go only when there is something wrong on their own
paths, and blocks on clean paths are never marked.
-/

namespace Amberchain.BestChain

variable {B : Type}

namespace ChainEnv

open BlockTree

variable [LinearOrder B] {env : ChainEnv B} {start state next : Selection B} {block first : B}

def Rejects (env : ChainEnv B) (block : B) : Prop :=
  env.precheckOff = false ∧ env.active block = false ∧
    ∃ state, (env.verify state block).1 = false

/-- A check of a miner that succeeds has the block passed: it is not skipped. -/
def Decides (env : ChainEnv B) : Prop :=
  ∀ state block, (env.verify state block).1 = true → (env.verify state block).2 block = true

structure Prechecked (env : ChainEnv B) (state next : Selection B) (block : B) : Prop where
  candidates : next.candidates = state.candidates
  failedChild : next.failedChild = state.failedChild
  passed : ∀ other, state.passed other = true → next.passed other = true
  failedValid : ∀ other, state.failedValid other = true → next.failedValid other = true
  marked : ∀ other, next.failedValid other = true → state.failedValid other = true ∨
    other = block ∧ state.passed other = false ∧ env.Rejects other
  decided : env.Decides → next.passed block = true ∨
    next.failedValid block = true ∧ env.active block = false

theorem precheck_spec (state : Selection B) (block : B) :
    Prechecked env state (env.precheck state block) block := by
  unfold precheck
  by_cases hpassed : state.passed block = true
  · rw [if_pos hpassed]
    exact ⟨rfl, rfl, fun _ => id, fun _ => id, fun _ => .inl, fun _ => .inl hpassed⟩
  rw [if_neg hpassed]
  unfold verifyBlockMiner
  by_cases hask : (env.precheckOff || (env.tree.pprev block).isNone || env.active block) = true
  · -- nothing is asked
    rw [if_pos hask]
    refine ⟨rfl, rfl, fun other hother => ?_, fun _ => id, fun _ => .inl,
      fun _ => .inl (Function.update_self ..)⟩
    show Function.update state.passed block true other = true
    by_cases hsame : other = block
    · rw [hsame, Function.update_self]
    · rw [Function.update_of_ne hsame, hother]
  rw [if_neg hask]
  rw [Bool.not_eq_true, Bool.or_eq_false_iff, Bool.or_eq_false_iff] at hask
  obtain ⟨⟨hon, _⟩, hactive⟩ := hask
  have hpassedMono : ∀ other, state.passed other = true →
      (state.passed other || (env.verify state block).2 other) = true := by
    intro other hother
    rw [hother, Bool.true_or]
  cases hverify : (env.verify state block).1 with
  | true =>
    refine ⟨rfl, rfl, hpassedMono, fun _ => id, fun _ => .inl, fun hdecides => .inl ?_⟩
    show (state.passed block || (env.verify state block).2 block) = true
    rw [hdecides state block hverify, Bool.or_true]
  | false =>
    refine ⟨rfl, rfl, hpassedMono, fun other hother => ?_, fun other hother => ?_,
      fun _ => .inr ⟨Function.update_self .., hactive⟩⟩
    · show Function.update state.failedValid block true other = true
      by_cases hsame : other = block
      · rw [hsame, Function.update_self]
      · rw [Function.update_of_ne hsame, hother]
    change Function.update state.failedValid block true other = true at hother
    by_cases hsame : other = block
    · rw [hsame]
      exact .inr ⟨rfl, Bool.eq_false_iff.mpr hpassed, hon, hactive, state, hverify⟩
    rw [Function.update_of_ne hsame] at hother
    exact .inl hother

structure Collected (env : ChainEnv B) (candidates temp : List B) (state next : Selection B)
    (temp' : List B) : Prop where
  same : next.candidates = state.candidates
  failedChild : next.failedChild = state.failedChild
  passed : ∀ other, state.passed other = true → next.passed other = true
  failedValid : ∀ other, state.failedValid other = true → next.failedValid other = true
  marked : ∀ other, next.failedValid other = true → state.failedValid other = true ∨
    (∃ candidate ∈ candidates, env.adjust candidate = some other) ∧
      state.passed other = false ∧ env.Rejects other
  mem : ∀ block ∈ temp', block ∈ temp ∨
    ∃ candidate ∈ candidates, env.adjust candidate = some block
  kept : ∀ block ∈ temp, block ∈ temp'
  found : ∀ candidate ∈ candidates, ∀ block, env.adjust candidate = some block →
    (state.passed block = true → block ∈ temp') ∧
      (env.Decides → block ∈ temp' ∨ next.failedValid block = true ∧ env.active block = false)

theorem collect_spec : ∀ (candidates : List B) (state : Selection B) (temp : List B),
      ∃ next temp', env.collect candidates state temp = some (next, temp') ∧
        Collected env candidates temp state next temp' := by
  intro candidates
  induction candidates with
  | nil =>
    intro state temp
    exact ⟨state, temp, rfl, rfl, rfl, fun _ => id, fun _ => id, fun _ => .inl,
      fun _ => .inl, fun _ => id, fun candidate hmem => absurd hmem List.not_mem_nil⟩
  | cons candidate candidates ih =>
    intro state temp
    obtain ⟨block, hblock, _⟩ := @adjust_spec B _ env candidate
    have hcheck := @precheck_spec B _ env state block
    generalize hmid : env.precheck state block = mid at hcheck
    generalize hset : (if mid.passed block ∧ block ∉ temp then temp ++ [block] else temp) = set
    obtain ⟨next, temp', hcollect, hrest⟩ := ih mid set
    have hsub : ∀ other ∈ temp, other ∈ set := fun other hother => by
      rw [← hset]
      split
      · exact List.mem_append_left _ hother
      · exact hother
    have hown : mid.passed block = true → block ∈ set := fun hpassed => by
      rw [← hset]
      split
      · exact List.mem_append_right _ (List.mem_singleton_self _)
      rename_i hnot
      by_contra hout
      exact hnot ⟨hpassed, hout⟩
    refine ⟨next, temp', ?_, hrest.same.trans hcheck.candidates,
      hrest.failedChild.trans hcheck.failedChild,
      fun other hother => hrest.passed other (hcheck.passed other hother),
      fun other hother => hrest.failedValid other (hcheck.failedValid other hother),
      fun other hother => ?_, fun other hother => ?_,
      fun other hother => hrest.kept other (hsub other hother), fun other hother => ?_⟩
    · unfold collect
      rw [hblock]
      dsimp only
      rw [hmid, hset]
      exact hcollect
    · cases hrest.marked other hother with
      | inl hmarked =>
        cases hcheck.marked other hmarked with
        | inl hold => exact .inl hold
        | inr hnew =>
          obtain ⟨rfl, hpassed, hrejects⟩ := hnew
          exact .inr ⟨⟨candidate, (.head _), hblock⟩, hpassed, hrejects⟩
      | inr hlater =>
        obtain ⟨⟨source, hsource, hadjust⟩, hpassed, hrejects⟩ := hlater
        refine .inr ⟨⟨source, List.mem_cons_of_mem _ hsource, hadjust⟩, ?_, hrejects⟩
        by_contra hnot
        rw [hcheck.passed other (Bool.not_eq_false _ ▸ hnot)] at hpassed
        cases hpassed
    · cases hrest.mem other hother with
      | inl hset' =>
        rw [← hset] at hset'
        split at hset'
        · cases List.mem_append.mp hset' with
          | inl hin => exact .inl hin
          | inr hlast =>
            rw [List.mem_singleton.mp hlast]
            exact .inr ⟨candidate, (.head _), hblock⟩
        · exact .inl hset'
      | inr hlater =>
        obtain ⟨source, hsource, hadjust⟩ := hlater
        exact .inr ⟨source, List.mem_cons_of_mem _ hsource, hadjust⟩
    intro target htarget
    cases List.mem_cons.mp hother with
    | inl heq =>
      rw [heq, hblock] at htarget
      cases htarget
      refine ⟨fun hpassed => hrest.kept _ (hown (hcheck.passed _ hpassed)), fun hdecides => ?_⟩
      cases hcheck.decided hdecides with
      | inl hpassed => exact .inl (hrest.kept _ (hown hpassed))
      | inr hfailed => exact .inr ⟨hrest.failedValid _ hfailed.1, hfailed.2⟩
    | inr htail =>
      obtain ⟨hpassed, hdecided⟩ := hrest.found other htail target htarget
      exact ⟨fun hold => hpassed (hcheck.passed _ hold), hdecided⟩

def HasData (env : ChainEnv B) (block : B) : Prop :=
  (env.tree.haveData block && (env.tree.chainTx block ≠ 0 || env.tree.height block = 0)) = true

def Wrong (env : ChainEnv B) (state : Selection B) (block : B) : Prop :=
  (state.failed block || env.banned block) = true

/-- What the walk finds. -/
inductive Tested (env : ChainEnv B) (state : Selection B) (above path : List B) :
    PathTest B → Prop where
  | valid (hright : ∀ block ∈ path, ¬ env.Wrong state block) :
      Tested env state above path .valid
  | invalid (front rest : List B) (block : B) (hpath : path = front ++ block :: rest)
      (hwrong : env.Wrong state block) : Tested env state above path (.invalid (above ++ front) block)

omit [LinearOrder B] in
theorem testPath_spec : ∀ (path above : List B), (∀ block ∈ path, env.HasData block) →
      Tested env state above path (env.testPath state above path) := by
  intro path
  induction path with
  | nil =>
    intro above _
    exact .valid fun block hmem => absurd hmem List.not_mem_nil
  | cons block rest ih =>
    intro above hdata
    have hown : env.HasData block := hdata block (.head _)
    unfold testPath
    rw [hown, Bool.not_true, if_neg Bool.false_ne_true]
    split
    · rename_i hwrong
      have htested := @Tested.invalid B env state above (block :: rest) [] rest block rfl hwrong
      rwa [List.append_nil] at htested
    rename_i hright
    have hrest := ih (above ++ [block]) fun other hother =>
      hdata other (.tail _ hother)
    generalize env.testPath state (above ++ [block]) rest = result at hrest
    cases hrest with
    | valid hall =>
      refine .valid fun other hother => ?_
      cases List.mem_cons.mp hother with
      | inl heq =>
        rw [heq]
        exact hright
      | inr htail => exact hall other htail
    | invalid front back found hpath hwrong =>
      have htested := @Tested.invalid B env state above (block :: rest) (block :: front) back
        found (by rw [hpath]; rfl) hwrong
      rw [List.append_assoc]
      exact htested

def WrongPath (env : ChainEnv B) (state : Selection B) (block : B) : Prop :=
  ∃ other ∈ env.tree.path env.active block, env.Wrong state other

omit [LinearOrder B] in
theorem WrongPath.mono (hwrong : env.WrongPath state block)
    (hfailed : ∀ other, state.failed other = true → next.failed other = true) :
    env.WrongPath next block := by
  obtain ⟨other, hmem, hother⟩ := hwrong
  refine ⟨other, hmem, ?_⟩
  unfold Wrong at hother ⊢
  rw [Bool.or_eq_true] at hother ⊢
  exact hother.imp (hfailed other) id

def Clean (env : ChainEnv B) (start : Selection B) (block : B) : Prop :=
  ∀ other ∈ env.tree.path env.active block, ¬ env.Wrong start other ∧
    ((∃ candidate ∈ start.candidates, env.adjust candidate = some other) →
      start.passed other = true ∨ ¬ env.Rejects other)

structure Follows (env : ChainEnv B) (start state : Selection B) : Prop where
  candidates : ∀ candidate ∈ state.candidates, candidate ∈ start.candidates
  passed : ∀ block, start.passed block = true → state.passed block = true
  failed : ∀ block, start.failed block = true → state.failed block = true
  clean : ∀ block, env.Clean start block → ¬ env.WrongPath state block
  gone : ∀ candidate ∈ start.candidates, candidate ∉ state.candidates →
    env.adjust candidate = some candidate ∧ env.WrongPath state candidate

theorem Follows.refl (start : Selection B) : Follows env start start where
  candidates := fun _ => id
  passed := fun _ => id
  failed := fun _ => id
  clean := fun block hclean hwrong => by
    obtain ⟨other, hmem, hother⟩ := hwrong
    exact (hclean other hmem).1 hother
  gone := fun candidate hmem hnot => absurd hmem hnot

theorem Collected.failed {candidates temp temp' : List B}
    (hcollected : Collected env candidates temp state next temp') (other : B)
    (hother : state.failed other = true) : next.failed other = true := by
  unfold Selection.failed at hother ⊢
  rw [Bool.or_eq_true] at hother ⊢
  rw [hcollected.failedChild]
  exact hother.imp (hcollected.failedValid other) id

theorem Follows.collected {temp temp' : List B} (hstate : Follows env start state)
    (hcollected : Collected env state.candidates temp state next temp') :
    Follows env start next where
  candidates := fun candidate hmem => by
    rw [hcollected.same] at hmem
    exact hstate.candidates candidate hmem
  passed := fun block hpassed => hcollected.passed block (hstate.passed block hpassed)
  failed := fun block hfailed => hcollected.failed block (hstate.failed block hfailed)
  clean := fun block hclean hwrong => by
    obtain ⟨other, hmem, hother⟩ := hwrong
    have hright : ¬ env.Wrong state other := fun hbefore =>
      hstate.clean block hclean ⟨other, hmem, hbefore⟩
    unfold Wrong Selection.failed at hother hright
    rw [Bool.or_eq_true, Bool.or_eq_true] at hother hright
    rw [hcollected.failedChild] at hother
    rcases hother with (hvalid | hchild) | hbanned
    · cases hcollected.marked other hvalid with
      | inl hold => exact hright (Or.inl (Or.inl hold))
      | inr hnew =>
        obtain ⟨⟨candidate, hcandidate, hadjust⟩, hpassed, hrejects⟩ := hnew
        cases (hclean other hmem).2 ⟨candidate, hstate.candidates candidate hcandidate, hadjust⟩ with
        | inl hstart =>
          rw [hstate.passed other hstart] at hpassed
          cases hpassed
        | inr hnever => exact hnever hrejects
    · exact hright (Or.inl (Or.inr hchild))
    · exact hright (Or.inr hbanned)
  gone := fun candidate hmem hnot => by
    rw [hcollected.same] at hnot
    obtain ⟨hadjust, hwrong⟩ := hstate.gone candidate hmem hnot
    exact ⟨hadjust, hwrong.mono hcollected.failed⟩

omit [LinearOrder B] in
theorem wrongPath_of_above {above rest : List B} {chosen invalid : B}
    (hpath : env.tree.path env.active chosen = above ++ invalid :: rest)
    (hwrong : env.Wrong state invalid) (hblock : block ∈ above ++ [invalid]) :
    env.WrongPath state block := by
  refine ⟨invalid, ?_, hwrong⟩
  cases List.mem_append.mp hblock with
  | inl habove =>
    obtain ⟨front, back, hsplit⟩ := List.append_of_mem habove
    have hfull : env.tree.path env.active chosen =
        front ++ block :: (back ++ invalid :: rest) := by
      rw [hpath, hsplit, List.append_assoc]
      rfl
    rw [path_of_append hfull]
    exact .tail _ (List.mem_append_right _ (.head _))
  | inr hlast =>
    rw [List.mem_singleton.mp hlast, path_of_append hpath]
    exact .head _

omit [LinearOrder B] in
theorem mem_path_of_above {above rest : List B} {chosen invalid : B}
    (hpath : env.tree.path env.active chosen = above ++ invalid :: rest)
    (hblock : block ∈ above ++ [invalid]) : block ∈ env.tree.path env.active chosen := by
  rw [hpath]
  cases List.mem_append.mp hblock with
  | inl habove => exact List.mem_append_left _ habove
  | inr hlast =>
    rw [List.mem_singleton.mp hlast]
    exact List.mem_append_right _ (.head _)

theorem failed_removeChain (state : Selection B) (above : List B) (block other : B) :
    (state.removeChain above block).failed other =
      (state.failed other || decide (other ∈ above)) := by
  exact (Bool.or_assoc _ _ _).symm

theorem Follows.removeChain {above rest : List B} {candidate chosen invalid : B}
    (hstate : Follows env start state)
    (hpath : env.tree.path env.active chosen = above ++ invalid :: rest)
    (hwrong : env.Wrong state invalid) (hchosen : env.adjust candidate = some chosen) :
    Follows env start (state.removeChain above invalid) where
  candidates := fun other hmem => hstate.candidates other (List.mem_filter.mp hmem).1
  passed := hstate.passed
  failed := fun other hfailed => by
    rw [failed_removeChain, hstate.failed other hfailed, Bool.true_or]
  clean := fun other hclean hwrongPath => by
    obtain ⟨bad, hmem, hbad⟩ := hwrongPath
    unfold Wrong at hbad
    rw [failed_removeChain, Bool.or_right_comm, Bool.or_eq_true, decide_eq_true_iff] at hbad
    cases hbad with
    | inl hbefore => exact hstate.clean other hclean ⟨bad, hmem, hbefore⟩
    | inr habove =>
      obtain ⟨found, hfound, hfoundWrong⟩ :=
        wrongPath_of_above hpath hwrong (List.mem_append_left _ habove)
      exact hstate.clean other hclean ⟨found, mem_path_trans hmem hfound, hfoundWrong⟩
  gone := fun other hmem hnot => by
    by_cases hstill : other ∈ state.candidates
    · have habove : other ∈ above ++ [invalid] := by
        by_contra hout
        exact hnot (List.mem_filter.mpr ⟨hstill, decide_eq_true hout⟩)
      have hwrongPath := wrongPath_of_above hpath hwrong habove
      have hancestor := ancestor_of_mem_path (mem_path_of_above hpath habove)
      obtain ⟨block, hblock, _⟩ := @adjust_spec B _ env other
      refine ⟨?_, hwrongPath.mono fun bad hbad => ?_⟩
      · by_cases hsame : block = other
        · rw [hblock, hsame]
        · exact absurd hancestor (not_ancestor_of_adjust hblock hsame hchosen)
      · rw [failed_removeChain, hbad, Bool.true_or]
    obtain ⟨hadjust, hwrongPath⟩ := hstate.gone other hmem hstill
    refine ⟨hadjust, hwrongPath.mono fun bad hbad => ?_⟩
    rw [failed_removeChain, hbad, Bool.true_or]

end ChainEnv

end Amberchain.BestChain
