import Amberchain.BestChain.BlockTree
import Mathlib.Data.List.Induction
import Mathlib.Data.Prod.Lex

/-!
# Choosing the best chain

`FindMostWorkChain`: the best candidate is taken, after candidates off the locked
block's chain have been replaced and miners have been checked, until there is nothing
wrong between it and the active chain.
-/

namespace Amberchain.BestChain

variable {B : Type}

/-- What changes while a chain is chosen: `setBlockIndexCandidates` in its order, the failed
bits of `nStatus`, `fPassedMinerPrecheck`, and how often miners have been checked. -/
structure Selection (B : Type) where
  candidates : List B
  failedValid : B → Bool
  failedChild : B → Bool
  passed : B → Bool
  calls : ℕ

/-- The tree, the active chain, the locked block, the banned blocks, and what the checks of
miners come to: the result, and the blocks of the branch that have passed. -/
structure ChainEnv (B : Type) where
  tree : BlockTree B
  multichain : Bool
  active : B → Bool
  locked : Option B
  banned : B → Bool
  precheckOff : Bool
  verify : Selection B → B → Bool × (B → Bool)

namespace Selection

/-- `nStatus & BLOCK_FAILED_MASK` -/
def failed (state : Selection B) (block : B) : Bool :=
  state.failedValid block || state.failedChild block

def removeChain [DecidableEq B] (state : Selection B) (above : List B) (block : B) : Selection B :=
  { state with
    failedChild := fun other => state.failedChild other || decide (other ∈ above)
    candidates := state.candidates.filter fun candidate => candidate ∉ above ++ [block] }

end Selection

/-- Where the walk down to the active chain ends. -/
inductive PathTest (B : Type) where
  | valid
  | assertionFailed
  | invalid (above : List B) (block : B)

inductive Outcome (B : Type) where
  | unfinished
  | assertionFailed
  | returned (result : Option B) (state : Selection B)

namespace ChainEnv

variable [LinearOrder B] (env : ChainEnv B)

/-- `CBlockIndexWorkComparator`, with the order of addresses at its end. -/
def less (first second : B) : Bool :=
  if env.tree.chainWork first > env.tree.chainWork second then false
  else if env.tree.chainWork first < env.tree.chainWork second then true
  else if env.multichain ∧ env.tree.canMine first > 0 ∧ env.tree.canMine second = 0 then false
  else if env.multichain ∧ env.tree.canMine first = 0 ∧ env.tree.canMine second > 0 then true
  else if env.multichain ∧ env.tree.canMine first = 0 ∧ env.tree.canMine second = 0 ∧
      env.tree.heightMinedByMe first < env.tree.heightMinedByMe second then false
  else if env.multichain ∧ env.tree.canMine first = 0 ∧ env.tree.canMine second = 0 ∧
      env.tree.heightMinedByMe first > env.tree.heightMinedByMe second then true
  else if env.tree.sequenceId first < env.tree.sequenceId second then false
  else if env.tree.sequenceId first > env.tree.sequenceId second then true
  else first > second

/-- `VerifyBlockMiner` without a block. -/
def verifyBlockMiner (state : Selection B) (block : B) : Bool × Selection B :=
  if env.precheckOff || (env.tree.pprev block).isNone || env.active block then
    (true, { state with
      passed := Function.update state.passed block true
      calls := state.calls + 1 })
  else
    ((env.verify state block).1, { state with
      passed := fun other => state.passed other || (env.verify state block).2 other
      calls := state.calls + 1 })

def adjust (candidate : B) : Option B :=
  match env.locked with
  | none => some candidate
  | some locked =>
    (env.tree.lastCommonAncestor candidate locked).map fun common =>
      if common ≠ locked then common else candidate

def precheck (state : Selection B) (block : B) : Selection B :=
  if state.passed block then state
  else
    let (verified, state) := env.verifyBlockMiner state block
    if verified then state
    else { state with failedValid := Function.update state.failedValid block true }

/-- The loop that fills `setTempBlockIndexCandidates`. -/
def collect : List B → Selection B → List B → Option (Selection B × List B)
  | [], state, temp => some (state, temp)
  | candidate :: candidates, state, temp =>
    match env.adjust candidate with
    | none => none
    | some block =>
      let state := env.precheck state block
      collect candidates state
        (if state.passed block ∧ block ∉ temp then temp ++ [block] else temp)

def keepGreater (found : Option B) (block : B) : Option B :=
  match found with
  | none => some block
  | some best => if env.less best block then some block else some best

/-- `rbegin`: the greatest of the set. -/
def rbegin (temp : List B) : Option B :=
  temp.foldl env.keepGreater none

def testPath (state : Selection B) : List B → List B → PathTest B
  | _, [] => .valid
  | above, block :: rest =>
    if !(env.tree.haveData block && (env.tree.chainTx block ≠ 0 || env.tree.height block = 0)) then
      .assertionFailed
    else if state.failed block || env.banned block then .invalid above block
    else testPath state (above ++ [block]) rest

/-- The loop of `FindMostWorkChain`, for some rounds. -/
def findMostWorkChain : ℕ → Selection B → Outcome B
  | 0, _ => .unfinished
  | rounds + 1, state =>
    match env.collect state.candidates state [] with
    | none => .assertionFailed
    | some (state, temp) =>
      match env.rbegin temp with
      | none => .returned none state
      | some pindexNew =>
        match env.testPath state [] (env.tree.path env.active pindexNew) with
        | .valid => .returned (some pindexNew) state
        | .assertionFailed => .assertionFailed
        | .invalid above block => findMostWorkChain rounds (state.removeChain above block)

end ChainEnv

end Amberchain.BestChain

/-!
# One round of choosing the best chain

The comparator is a strict order, the candidates are replaced by blocks on their own
chains, and what a round puts aside has something wrong on its path.
-/

namespace Amberchain.BestChain

variable {B : Type}

namespace ChainEnv

open BlockTree

variable [LinearOrder B] {env : ChainEnv B} {state next : Selection B} {block first second : B}

/-- What the comparator compares, the greatest being the best. -/
def key (env : ChainEnv B) (block : B) : ℕ ×ₗ ℕ ×ₗ ℤᵒᵈ ×ₗ ℕᵒᵈ ×ₗ Bᵒᵈ :=
  toLex (env.tree.chainWork block,
    toLex (if env.multichain ∧ env.tree.canMine block > 0 then 1 else 0,
      toLex (OrderDual.toDual
          (if env.multichain ∧ env.tree.canMine block = 0 then env.tree.heightMinedByMe block
            else 0),
        toLex (OrderDual.toDual (env.tree.sequenceId block), OrderDual.toDual block))))

theorem ite_gt_lt_iff {α : Type} [LinearOrder α] (a b : α) (rest : Bool) :
    (if a > b then false else if a < b then true else rest) = true ↔
      a < b ∨ a = b ∧ rest = true := by
  rcases lt_trichotomy a b with hlt | heq | hgt
  · simp [hlt, hlt.not_gt]
  · simp [heq]
  simp [hgt, hgt.not_gt, hgt.ne']

theorem ite_lt_gt_iff {α : Type} [LinearOrder α] (a b : α) (rest : Bool) :
    (if a < b then false else if a > b then true else rest) = true ↔
      b < a ∨ a = b ∧ rest = true := by
  rw [eq_comm (a := a)]
  exact ite_gt_lt_iff b a rest

theorem less_iff : env.less first second = true ↔ env.key first < env.key second := by
  have hlast : (if env.tree.sequenceId first < env.tree.sequenceId second then false
      else if env.tree.sequenceId first > env.tree.sequenceId second then true
      else decide (first > second)) = true ↔
      env.tree.sequenceId second < env.tree.sequenceId first ∨
        env.tree.sequenceId first = env.tree.sequenceId second ∧ second < first := by
    rw [ite_lt_gt_iff, decide_eq_true_iff]
  unfold less key
  rw [ite_gt_lt_iff, Prod.Lex.toLex_lt_toLex]
  refine or_congr Iff.rfl (and_congr_right fun _ => ?_)
  simp only [Prod.Lex.toLex_lt_toLex, OrderDual.toDual_lt_toDual, OrderDual.toDual_inj]
  rw [← hlast]
  cases hmulti : env.multichain with
  | false => simp
  | true =>
    rcases Nat.eq_zero_or_pos (env.tree.canMine first) with hfirst | hfirst <;>
      rcases Nat.eq_zero_or_pos (env.tree.canMine second) with hsecond | hsecond
    · simp only [hfirst, hsecond, true_and, lt_irrefl, if_false, if_true, gt_iff_lt, false_or]
      exact ite_lt_gt_iff _ _ _
    · simp [hfirst, hsecond, hsecond.ne']
    · simp [hfirst, hsecond, hfirst.ne']
    simp [hfirst, hsecond, hfirst.ne', hsecond.ne']

omit [LinearOrder B] in
theorem key_injective (hkey : env.key first = env.key second) : first = second := by
  have hblock := congrArg (fun key => (ofLex (ofLex (ofLex (ofLex key).2).2).2).2) hkey
  exact OrderDual.toDual_inj.mp hblock

theorem less_of_not_less (hnot : env.less first second = false) (hne : first ≠ second) :
    env.less second first = true := by
  rw [less_iff]
  have hle : ¬ env.key first < env.key second := by
    rw [← less_iff, hnot]
    exact Bool.false_ne_true
  exact lt_of_le_of_ne (not_lt.mp hle) fun hkey => hne (key_injective hkey).symm

/-- `rbegin` is in the set, and nothing there is greater. -/
structure Greatest (env : ChainEnv B) (temp : List B) (best : B) : Prop where
  mem : best ∈ temp
  le : ∀ block ∈ temp, env.less best block = false

theorem not_less_iff : env.less first second = false ↔ env.key second ≤ env.key first := by
  rw [← not_lt, ← less_iff, Bool.not_eq_true]

theorem rbegin_append (temp : List B) (last : B) :
    env.rbegin (temp ++ [last]) = env.keepGreater (env.rbegin temp) last := by
  unfold rbegin
  rw [List.foldl_append]
  rfl

theorem keepGreater_isSome (found : Option B) (block : B) :
    ∃ best, env.keepGreater found block = some best := by
  unfold keepGreater
  split
  · exact ⟨_, rfl⟩
  split <;> exact ⟨_, rfl⟩

theorem rbegin_isSome_of_mem {temp : List B} (hblock : block ∈ temp) :
    ∃ best, env.rbegin temp = some best := by
  cases temp using List.reverseRecOn with
  | nil => cases hblock
  | append_singleton temp last =>
    rw [rbegin_append]
    exact keepGreater_isSome _ last

theorem greatest_of_rbegin {temp : List B} {best : B} (hbest : env.rbegin temp = some best) :
    Greatest env temp best := by
  induction temp using List.reverseRecOn generalizing best with
  | nil => cases hbest
  | append_singleton temp last ih =>
    rw [rbegin_append] at hbest
    cases hfound : env.rbegin temp with
    | none =>
      have hempty : ∀ block ∈ temp, block = last := fun block hblock => by
        obtain ⟨other, hother⟩ := @rbegin_isSome_of_mem B _ env _ _ hblock
        rw [hfound] at hother
        cases hother
      rw [hfound] at hbest
      cases hbest
      refine ⟨List.mem_append_right _ (List.mem_singleton_self _), fun block hblock => ?_⟩
      rw [not_less_iff]
      cases List.mem_append.mp hblock with
      | inl hin => rw [hempty block hin]
      | inr hlast => rw [List.mem_singleton.mp hlast]
    | some found =>
      obtain ⟨hmem, hle⟩ := ih hfound
      rw [hfound] at hbest
      unfold keepGreater at hbest
      dsimp only at hbest
      split at hbest
      · rename_i hless
        cases hbest
        refine ⟨List.mem_append_right _ (List.mem_singleton_self _), fun block hblock => ?_⟩
        rw [not_less_iff]
        cases List.mem_append.mp hblock with
        | inl hin => exact (not_less_iff.mp (hle block hin)).trans (less_iff.mp hless).le
        | inr hlast => rw [List.mem_singleton.mp hlast]
      rename_i hless
      cases hbest
      refine ⟨List.mem_append_left _ hmem, fun block hblock => ?_⟩
      cases List.mem_append.mp hblock with
      | inl hin => exact hle block hin
      | inr hlast =>
        rw [List.mem_singleton.mp hlast]
        exact Bool.eq_false_iff.mpr hless

theorem adjust_spec (candidate : B) : ∃ block, env.adjust candidate = some block ∧
    Ancestor env.tree block candidate := by
  unfold adjust
  split
  · exact ⟨candidate, rfl, .refl⟩
  rename_i locked _
  obtain ⟨common, hcommon, hleft, _⟩ := @lastCommonAncestor_spec B env.tree _ candidate locked
  rw [hcommon, Option.map_some]
  refine ⟨_, rfl, ?_⟩
  split
  · exact hleft
  exact .refl

/-- A candidate that was replaced is not on the path of what candidates are replaced by. -/
theorem not_ancestor_of_adjust {candidate other : B} {replaced : B}
    (hcandidate : env.adjust candidate = some replaced) (hne : replaced ≠ candidate)
    (hother : env.adjust other = some block) : ¬ Ancestor env.tree candidate block := by
  intro hancestor
  unfold adjust at hcandidate hother
  split at hcandidate
  · cases hcandidate
    exact hne rfl
  rename_i locked hlocked
  rw [hlocked] at hother
  have hstays : Ancestor env.tree candidate locked ∨ Ancestor env.tree locked candidate →
      False := by
    intro hon
    obtain ⟨common, hcommon, _, _, hfirst, hsecond⟩ :=
      @lastCommonAncestor_spec B env.tree _ candidate locked
    rw [hcommon] at hcandidate
    have hreplaced : (if common ≠ locked then common else candidate) = replaced :=
      Option.some.inj hcandidate
    cases hon with
    | inl hbefore =>
      rw [hfirst hbefore] at hreplaced
      refine hne (hreplaced.symm.trans ?_)
      split <;> rfl
    | inr hafter =>
      rw [hsecond hafter, if_neg (not_not_intro rfl)] at hreplaced
      exact hne hreplaced.symm
  obtain ⟨common, hcommon, hleft, hright, _⟩ := @lastCommonAncestor_spec B env.tree _ other locked
  dsimp only at hother
  rw [hcommon] at hother
  have hblock : (if common ≠ locked then common else other) = block := Option.some.inj hother
  split at hblock
  · rw [← hblock] at hancestor
    exact hstays (.inl (hancestor.trans hright))
  rename_i hlast
  rw [not_not] at hlast
  rw [← hblock] at hancestor
  rw [hlast] at hleft
  exact hstays (hancestor.linear hleft)

end ChainEnv

end Amberchain.BestChain
