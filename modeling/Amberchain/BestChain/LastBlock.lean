import Amberchain.BestChain.OrderedRuns
import Amberchain.BestChain.Tries

/-!
# Setting the last block

When `SetLastBlock` ends, and what it has done then.  It asks for the block itself at each
block of the path, so that it goes on when a block below has failed or has no data.
-/

namespace Amberchain.BestChain.Node

open BlockTree

variable {B : Type} [LinearOrder B] {params : NodeParams} {validation : Validation B}
  {node next : Node B} {block target : B} {readable : Bool} {steps : ℕ}

structure SetsTip (params : NodeParams) (validation : Validation B) (readable : Bool)
    (node : Node B) (target : B) : Prop where
  /-- It returns, unless `ActivateBestChain` does not after an error. -/
  returns : ∃ steps, ∀ rounds,
    node.setLastBlock params validation readable rounds target steps = none →
    ∃ reason failed, node.stepsTo params validation target steps = some (.error reason failed) ∧
      (activateBestChain params rounds failed).left = none
  /-- Without an error the tip is the block. -/
  reached : ∀ rounds steps answer,
    node.setLastBlock params validation readable rounds target steps = some answer →
    answer.error = "" → answer.node.tip = some target
  /-- Blocks are tried only when they have their data and have not failed. -/
  ready : ∀ rounds steps answer,
    node.setLastBlock params validation readable rounds target steps = some answer →
    TriesReady node answer.node
  /-- When the loop meets an invalid block there is an error, and all active blocks are valid. -/
  refuses : ∀ rounds steps answer result last, target ∈ node.index →
    node.refused readable target (node.tree.path node.contains target) = none →
    node.setLastBlock params validation readable rounds target steps = some answer →
    node.stepsTo params validation target steps = some result → result.left = some last →
    (∃ attempt ∈ last.attempts.drop node.attempts.length, Refuses validation attempt.1) →
    answer.error ≠ "" ∧
      ∀ block, answer.node.contains block = true → answer.node.selection.failed block = false

/-- What the loop meets when it ends well: it reaches the block, or the first thing that goes
wrong is a failure of the system that has a reason. -/
inductive Ends (params : NodeParams) (validation : Validation B) (node : Node B) (target : B) :
    Prop where
  | connects
      (hworks : ∀ block ∈ node.leaving target, validation.disconnect block = none)
      (hconnects : ∀ block ∈ node.tree.path node.contains target, node.Connects validation block)
      (hleft : node.tree.path node.contains target ≠ [] →
        remaining params node (node.tree.path node.contains target).reverse ≠ [])
  | undisconnected (front rest : List B) (block : B) (reason : String)
      (hleaving : node.leaving target = front ++ block :: rest)
      (hworks : ∀ other ∈ front, validation.disconnect other = none)
      (hfails : validation.disconnect block = some reason) (hreason : reason ≠ "")
  | unconnected (front rest : List B) (block : B) (reason : String)
      (hworks : ∀ block ∈ node.leaving target, validation.disconnect block = none)
      (hpath : (node.tree.path node.contains target).reverse = front ++ block :: rest)
      (hconnects : ∀ other ∈ front, node.Connects validation other)
      (hleft : front ≠ [] → remaining params node front ≠ [])
      (hready : node.Ready block) (hfails : validation.connect block = .failed reason)
      (hreason : reason ≠ "")

def RefusedBefore (readable : Bool) (node : Node B) (target : B) : Prop :=
  node.tree.path node.contains target ≠ [] ∧
    (node.selection.failed target = true ∨ node.tree.haveData target = false ∨ readable = false)

theorem refused_of_fine (hfailed : node.selection.failed target = false)
    (hdata : node.tree.haveData target = true) (hreadable : readable = true) (path : List B) :
    node.refused readable target path = none := by
  induction path with
  | nil => rfl
  | cons block path ih =>
    unfold refused
    rw [hfailed, if_neg Bool.false_ne_true, hdata, if_neg (not_not.mpr rfl), hreadable,
      if_neg fun hboth => hboth.2 rfl, ← hreadable]
    exact ih

/-- The first loop refuses a block with an error. -/
theorem refused_spec :
    (∃ error notFound, node.refused readable target (node.tree.path node.contains target) =
        some (error, notFound) ∧ error ≠ "" ∧ RefusedBefore readable node target) ∨
      node.refused readable target (node.tree.path node.contains target) = none ∧
        ¬RefusedBefore readable node target := by
  by_cases hne : node.tree.path node.contains target = []
  · rw [hne]
    exact .inr ⟨rfl, fun hrefused => hrefused.1 hne⟩
  obtain ⟨rest, hcons⟩ := path_eq_cons hne
  cases hfailed : node.selection.failed target with
  | true =>
    refine .inl ⟨"Block is invalid", false, ?_, by decide, hne, .inl hfailed⟩
    rw [hcons, refused, hfailed]
    rfl
  | false =>
    cases hdata : node.tree.haveData target with
    | false =>
      refine .inl ⟨"Block is invalid, probably we have only header", true, ?_, by decide,
        hne, .inr (.inl hdata)⟩
      rw [hcons, refused, hfailed, hdata]
      rfl
    | true =>
      cases hreadable : readable with
      | false =>
        refine .inl ⟨"Block not found", true, ?_, by decide, hne, .inr (.inr rfl)⟩
        rw [hcons, refused, hfailed, hdata, if_neg Bool.false_ne_true, if_neg (not_not.mpr rfl),
          if_pos ⟨rfl, Bool.false_ne_true⟩]
      | true =>
        refine .inr ⟨refused_of_fine hfailed hdata rfl _, fun hrefused => ?_⟩
        obtain ⟨-, hfails⟩ := hrefused
        rw [hfailed, hdata] at hfails
        simp at hfails

theorem stepsTo_unique {more : ℕ} {result other : Done B}
    (hresult : node.stepsTo params validation target steps = some result)
    (hother : node.stepsTo params validation target more = some other) : result = other := by
  have hfirst := stepsTo_add more hresult
  have hsecond := stepsTo_add steps hother
  rw [Nat.add_comm, hfirst] at hsecond
  exact Option.some.inj hsecond

structure Comes (params : NodeParams) (validation : Validation B) (node : Node B) (target : B)
    (result : Done B) : Prop where
  steps : ∃ steps, node.stepsTo params validation target steps = some result
  well : (∃ last, result = .ok last ∧ last.tip = some target) ∨
    ∃ reason last, result = .error reason last ∧ reason ≠ ""
  tries : ∃ last tries, result.left = some last ∧ last.attempts = node.attempts ++ tries ∧
    ∀ attempt ∈ tries, attempt.2 = true ∧ ¬Refuses validation attempt.1

omit [LinearOrder B] in
theorem not_refuses_of_connects (hconnects : node.Connects validation block) :
    ¬Refuses validation block := by
  obtain ⟨-, upgradeRequired, hconnect⟩ := hconnects
  unfold Refuses
  rw [hconnect]
  rintro (hinvalid | hcorrupted)
  · cases hinvalid
  cases hcorrupted

theorem tries_of_advanced {start mid : Node B} {front : List B}
    (hadvanced : Advanced params start mid front)
    (hconnects : ∀ block ∈ front, start.Connects validation block) :
    mid.attempts = start.attempts ++ (front.map fun block => (block, true)) ∧
      ∀ attempt ∈ front.map fun block => (block, true),
        attempt.2 = true ∧ ¬Refuses validation attempt.1 := by
  refine ⟨hadvanced.attempts, fun attempt hmem => ?_⟩
  obtain ⟨block, hblock, rfl⟩ := List.mem_map.mp hmem
  exact ⟨rfl, not_refuses_of_connects (hconnects block hblock)⟩

theorem climbs_of_split {front rest : List B} {mid : Node B}
    (hsplit : (node.tree.path node.contains target).reverse = front ++ rest)
    (hadvanced : Advanced params (node.atFork target) mid front) :
    Climbs mid.tree mid.tip rest := by
  have hclimbs := @climbs_path B node.tree target node.contains
  rw [hsplit, Climbs.append] at hclimbs
  rw [hadvanced.tree, hadvanced.tip]
  unfold atFork
  rw [findFork_eq]
  exact hclimbs.2

theorem leaving_of_tip (htip : node.tip = some target) : node.leaving target = [] := by
  have hfork : node.findFork target = some target :=
    (findFork_eq node target).trans (forkOf_of_active (contains_tip htip))
  unfold leaving
  rw [htip]
  exact path_of_active (decide_eq_true hfork)

/-- The loop ends well. -/
theorem comes_of_ends (hends : Ends params validation node target) :
    ∃ result, Comes params validation node target result := by
  cases hends with
  | connects hworks hconnects hleft =>
    by_cases hne : node.tree.path node.contains target = []
    · have hactive : node.contains target = true := by
        by_contra hnot
        exact path_ne_nil (Bool.eq_false_iff.mpr hnot) hne
      obtain ⟨used, hused⟩ := @stepsTo_active B _ params validation node target hworks hactive
      refine ⟨_, ⟨used + 0, hused 0⟩, .inl ⟨_, rfl, ?_⟩, _, [], rfl,
        (List.append_nil _).symm, nofun⟩
      exact (findFork_eq node target).trans (forkOf_of_active hactive)
    obtain ⟨-, hnil, -⟩ | ⟨-, used, oldTip, mid, hadvanced, hmore⟩ :=
      @climbed B _ params validation node target _ [] hworks hne (List.append_nil _).symm
        fun block hblock => hconnects block (List.mem_reverse.mp hblock)
    · exact absurd hnil (hleft hne)
    have htip : mid.tip = some target := by
      obtain ⟨rest, hcons⟩ := path_eq_cons hne
      rw [hadvanced.tip, List.getLast?_reverse, hcons]
      rfl
    obtain ⟨hattempts, htries⟩ := @tries_of_advanced B _ params validation _ mid _ hadvanced
      fun block hblock => hconnects block (List.mem_reverse.mp hblock)
    exact ⟨_, ⟨used + 0, (hmore 0).trans (@stepsTo_at B _ params validation _ _ htip 0)⟩, .inl ⟨mid, rfl, htip⟩,
      mid, _, rfl, hattempts, htries⟩
  | undisconnected front rest block reason hleaving hworks hfails hreason =>
    have hoff : node.tip ≠ some target := by
      intro htip
      rw [leaving_of_tip htip] at hleaving
      exact List.append_ne_nil_of_right_ne_nil _ (List.cons_ne_nil _ _) hleaving.symm
    refine ⟨.error reason { node with tip := some block }, ⟨1, ?_⟩, .inr ⟨_, _, rfl, hreason⟩,
      _, [], rfl, (List.append_nil _).symm, nofun⟩
    rw [stepsTo_step hoff, step_failing hleaving hworks hfails]
    rfl
  | unconnected front rest block reason hworks hpath hconnects hleft hready hfails hreason =>
    have hne : node.tree.path node.contains target ≠ [] := by
      intro hnil
      rw [hnil] at hpath
      exact List.append_ne_nil_of_right_ne_nil _ (List.cons_ne_nil _ _) hpath.symm
    obtain ⟨hne, hnil, -⟩ | ⟨-, used, oldTip, mid, hadvanced, hmore⟩ :=
      @climbed B _ params validation node target front (block :: rest) hworks hne hpath hconnects
    · exact absurd hnil (hleft hne)
    obtain ⟨hattempts, htries⟩ :=
      @tries_of_advanced B _ params validation _ mid _ hadvanced hconnects
    obtain ⟨result, last, htried, hspec⟩ := @connectTip_tried B _ params validation mid block
      (climbs_of_split hpath hadvanced).1
    obtain ⟨hdata, hfailed⟩ := hadvanced.ready.mpr hready
    rw [hspec.decided hdata, hfails] at htried
    have hlast : last.attempts =
        node.attempts ++ ((front.map fun block => (block, true)) ++ [(block, true)]) := by
      rw [hspec.attempts, hattempts, hdata, hfailed, List.append_assoc]
      rfl
    refine ⟨.error reason last, ⟨used + 0, ?_⟩, .inr ⟨_, _, rfl, hreason⟩, last, _, rfl, hlast,
      fun attempt hmem => ?_⟩
    · rw [hmore 0, connectPath, htried]
      rfl
    cases List.mem_append.mp hmem with
    | inl hin => exact htries attempt hin
    | inr hin =>
      rw [List.mem_singleton.mp hin]
      refine ⟨rfl, ?_⟩
      unfold Refuses
      rw [hfails]
      rintro (hinvalid | hcorrupted)
      · cases hinvalid
      cases hcorrupted

variable {rounds : List (Round B)}

theorem setLastBlock_unknown (hunknown : target ∉ node.index) :
    node.setLastBlock params validation readable rounds target steps =
      some ⟨"Block not found", true, node⟩ := by
  exact if_pos hunknown

theorem setLastBlock_refused {error : String} {notFound : Bool} (hknown : target ∈ node.index)
    (hrefused : node.refused readable target (node.tree.path node.contains target) =
      some (error, notFound)) : node.setLastBlock params validation readable rounds target steps =
      some ⟨error, notFound, node⟩ := by
  unfold setLastBlock
  rw [if_neg (not_not.mpr hknown), hrefused]

/-- What `SetLastBlock` makes of the result of the loop. -/
def answered (params : NodeParams) (rounds : List (Round B)) (target : B) :
    Option (Done B) → Option (Answer B)
  | some (.ok node) => some ⟨"", false, node.insertCandidate params target⟩
  | some (.error reason node) =>
    (activateBestChain params rounds node).left.map fun left => ⟨reason, false, left⟩
  | _ => none

theorem setLastBlock_eq (hknown : target ∈ node.index)
    (hrefused : node.refused readable target (node.tree.path node.contains target) = none) :
    node.setLastBlock params validation readable rounds target steps =
      answered params rounds target (node.stepsTo params validation target steps) := by
  unfold setLastBlock
  rw [if_neg (not_not.mpr hknown), hrefused]
  cases node.stepsTo params validation target steps with
  | none => rfl
  | some result => cases result <;> rfl

/-- Refused at once: nothing is done. -/
theorem setsTip_of_constant {error : String} {notFound : Bool} (herror : error ≠ "")
    (hconstant : ∀ rounds steps, node.setLastBlock params validation readable rounds target steps =
      some ⟨error, notFound, node⟩) (hrefused : target ∈ node.index →
      node.refused readable target (node.tree.path node.contains target) ≠ none) :
    SetsTip params validation readable node target where
  returns := ⟨0, fun rounds hnone => by
    rw [hconstant] at hnone
    cases hnone⟩
  reached rounds steps answer hanswer hempty := by
    rw [hconstant] at hanswer
    cases hanswer
    exact absurd hempty herror
  ready rounds steps answer hanswer := by
    rw [hconstant] at hanswer
    cases hanswer
    exact .refl node
  refuses _ _ _ _ _ hknown hnone := absurd hnone (hrefused hknown)

/-- When the loop ends well, so does `SetLastBlock`. -/
theorem setsTip_of_ends (hknown : target ∈ node.index)
    (hrefused : node.refused readable target (node.tree.path node.contains target) = none)
    (hends : Ends params validation node target) :
    SetsTip params validation readable node target := by
  obtain ⟨result, hcomes⟩ := comes_of_ends hends
  obtain ⟨used, hused⟩ := hcomes.steps
  obtain ⟨last, tries, hlast, hattempts, htries⟩ := hcomes.tries
  have hanswers : ∀ {rounds : List (Round B)} {steps : ℕ} {answer : Answer B},
      node.setLastBlock params validation readable rounds target steps = some answer →
      (∃ last, result = .ok last ∧ answer = ⟨"", false, last.insertCandidate params target⟩) ∨
        ∃ reason failed left, result = .error reason failed ∧
          (activateBestChain params rounds failed).left = some left ∧
          answer = ⟨reason, false, left⟩ := by
    intro rounds steps answer hanswer
    rw [setLastBlock_eq hknown hrefused] at hanswer
    cases hsteps : node.stepsTo params validation target steps with
    | none =>
      rw [hsteps] at hanswer
      cases hanswer
    | some other =>
      rw [hsteps, stepsTo_unique hsteps hused] at hanswer
      cases result with
      | ok last =>
        cases hanswer
        exact .inl ⟨last, rfl, rfl⟩
      | error reason failed =>
        obtain ⟨left, hleft, rfl⟩ := Option.map_eq_some_iff.mp hanswer
        exact .inr ⟨reason, failed, left, rfl, hleft, rfl⟩
      | stopped => cases hanswer
  refine {
    returns := ⟨used, fun rounds hnone => ?_⟩
    reached := fun rounds steps answer hanswer hempty => ?_
    ready := fun rounds steps answer hanswer => ?_
    refuses := fun rounds steps answer other left _ _ hanswer hsteps hleft hinvalid => ?_ }
  · rw [setLastBlock_eq hknown hrefused, hused] at hnone
    rw [hused]
    cases result with
    | ok last => cases hnone
    | error reason failed => exact ⟨reason, failed, rfl, Option.map_eq_none_iff.mp hnone⟩
    | stopped => cases hlast
  · obtain ⟨last, rfl, rfl⟩ | ⟨reason, failed, left, rfl, hleft, rfl⟩ := hanswers hanswer
    · obtain ⟨reached, hreached, htip⟩ | ⟨_, _, herror, _⟩ := hcomes.well
      · cases hreached
        exact htip
      · cases herror
    obtain ⟨_, hok, _⟩ | ⟨_, _, herror, hreason⟩ := hcomes.well
    · cases hok
    cases herror
    exact absurd hempty hreason
  · have hloop : TriesReady node last :=
      ⟨tries, hattempts, fun attempt hmem => (htries attempt hmem).1⟩
    obtain ⟨reached, rfl, rfl⟩ | ⟨reason, failed, left, rfl, hleft, rfl⟩ := hanswers hanswer
    · cases hlast
      exact hloop.trans (.of_eq rfl)
    cases hlast
    exact hloop.trans (Activation.All.left (activateBestChain_ready rounds last) hleft)
  rw [stepsTo_unique hsteps hused, hlast] at hleft
  cases hleft
  obtain ⟨attempt, hmem, hbad⟩ := hinvalid
  rw [hattempts, List.drop_left] at hmem
  exact absurd hbad (htries attempt hmem).2

theorem not_setsTip_of_empty {last : Node B} (hknown : target ∈ node.index)
    (hrefused : node.refused readable target (node.tree.path node.contains target) = none)
    (hsteps : node.stepsTo params validation target steps = some (.error "" last))
    (htip : last.tip ≠ some target) : ¬SetsTip params validation readable node target := by
  intro hsets
  refine htip (hsets.reached [] steps ⟨"", false, last⟩ ?_ rfl)
  rw [setLastBlock_eq hknown hrefused, hsteps]
  rfl

theorem SetsTip.result (hsets : SetsTip params validation readable node target)
    (hknown : target ∈ node.index)
    (hrefused : node.refused readable target (node.tree.path node.contains target) = none) :
    ∃ steps result last, node.stepsTo params validation target steps = some result ∧
      result.left = some last ∧ TriesReady node last := by
  obtain ⟨steps, hreturns⟩ := hsets.returns
  have hanswer := hreturns []
  cases hsteps : node.stepsTo params validation target steps with
  | none =>
    rw [setLastBlock_eq hknown hrefused, hsteps] at hanswer
    obtain ⟨_, _, hother, -⟩ := hanswer rfl
    cases hother
  | some result =>
    refine ⟨steps, result, ?_⟩
    cases result with
    | ok last =>
      exact ⟨last, hsteps, rfl, hsets.ready [] steps ⟨"", false, last.insertCandidate params target⟩
        (by rw [setLastBlock_eq hknown hrefused, hsteps]; rfl)⟩
    | error reason last =>
      exact ⟨last, hsteps, rfl, hsets.ready [] steps ⟨reason, false, last⟩
        (by rw [setLastBlock_eq hknown hrefused, hsteps]; rfl)⟩
    | stopped =>
      rw [setLastBlock_eq hknown hrefused, hsteps] at hanswer
      obtain ⟨_, _, hother, -⟩ := hanswer rfl
      cases hother

/-- The blocks that leave do not include the one that is asked for. -/
theorem not_mem_leaving : target ∉ node.leaving target := by
  intro hmem
  unfold leaving at hmem
  cases htip : node.tip with
  | none =>
    rw [htip] at hmem
    cases hmem
  | some tip =>
    rw [htip] at hmem
    have hactive : node.contains target = true :=
      contains_iff.mpr ⟨tip, htip, ancestor_of_mem_path hmem⟩
    have hoff := not_active_of_mem_path hmem
    rw [findFork_eq, forkOf_of_active hactive] at hoff
    exact absurd rfl (of_decide_eq_false hoff)

/-- The first element that does not meet a condition. -/
theorem exists_front {α : Type} (good : α → Prop) (all : List α) : (∀ element ∈ all, good element) ∨
      ∃ front element rest, all = front ++ element :: rest ∧ (∀ other ∈ front, good other) ∧
        ¬good element := by
  induction all with
  | nil => exact .inl nofun
  | cons first rest ih =>
    by_cases hfirst : good first
    · obtain hall | ⟨front, element, back, hsplit, hfront, hbad⟩ := ih
      · exact .inl (List.forall_mem_cons.mpr ⟨hfirst, hall⟩)
      exact .inr ⟨first :: front, element, back, by rw [hsplit]; rfl,
        List.forall_mem_cons.mpr ⟨hfirst, hfront⟩, hbad⟩
    exact .inr ⟨[], first, rest, rfl, nofun, hfirst⟩

section

variable (hsets : SetsTip params validation readable node target) (hknown : target ∈ node.index)
  (hrefused : node.refused readable target (node.tree.path node.contains target) = none)

include hsets hknown hrefused

/-- The block at which the front ends has to be ready, and fails for a reason. -/
theorem SetsTip.unconnected {front rest : List B}
    (hworks : ∀ block ∈ node.leaving target, validation.disconnect block = none)
    (hpath : (node.tree.path node.contains target).reverse = front ++ block :: rest)
    (hconnects : ∀ other ∈ front, node.Connects validation other)
    (hbad : ¬node.Connects validation block)
    (hleft : front ≠ [] → remaining params node front ≠ []) :
    node.Ready block ∧ ∃ reason, validation.connect block = .failed reason ∧ reason ≠ "" := by
  have hne : node.tree.path node.contains target ≠ [] := by
    intro hnil
    rw [hnil] at hpath
    exact List.append_ne_nil_of_right_ne_nil _ (List.cons_ne_nil _ _) hpath.symm
  obtain ⟨hne, hnil, -⟩ | ⟨-, used, oldTip, mid, hadvanced, hmore⟩ :=
    @climbed B _ params validation node target front (block :: rest) hworks hne hpath hconnects
  · exact absurd hnil (hleft hne)
  have hclimbs := climbs_of_split hpath hadvanced
  have hlast : (block :: rest).getLast? = some target := by
    obtain ⟨back, hcons⟩ := path_eq_cons hne
    have hall : (front ++ block :: rest).getLast? = some target := by
      rw [← hpath, List.getLast?_reverse, hcons]
      rfl
    rw [List.getLast?_append_of_ne_nil _ (List.cons_ne_nil _ _)] at hall
    exact hall
  have hoff : mid.tip ≠ some target := by
    intro htip
    rw [htip] at hclimbs
    have hself := (hclimbs.ancestor target (List.mem_of_mem_getLast? hlast)).2
    exact absurd hself (Nat.lt_irrefl _)
  obtain ⟨result, tried, htried, hspec⟩ := @connectTip_tried B _ params validation mid block
    hclimbs.1
  -- the block is among what is tried
  obtain ⟨steps, done, last, hsteps, hdone, htries⟩ := hsets.result hknown hrefused
  have hready : node.Ready block := by
    have hloop : goesOn params validation target steps
        (connectPath params validation oldTip (block :: rest) mid) = some done := by
      rw [← hmore steps, Nat.add_comm]
      exact stepsTo_add used hsteps
    have hinit : tried.attempts <+: last.attempts := by
      have hall := @connectPath_tried B _ params validation mid tried block oldTip rest result
        htried
      cases hend : connectPath params validation oldTip (block :: rest) mid with
      | ok next =>
        rw [hend] at hloop hall
        exact Done.All.left ((tried_kept tried).stepsTo validation hall hloop) hdone
      | error reason next =>
        rw [hend] at hloop hall
        cases hloop
        cases hdone
        exact hall
      | stopped =>
        rw [hend] at hloop
        cases hloop
        cases hdone
    obtain ⟨tries, hattempts, hall⟩ := htries
    obtain ⟨more, hmore⟩ := hinit
    rw [hattempts, hspec.attempts, hadvanced.attempts] at hmore
    have hmem : (block, mid.tree.haveData block && !mid.selection.failed block) ∈ tries := by
      rw [List.append_assoc, List.append_assoc] at hmore
      rw [← List.append_cancel_left hmore]
      simp
    have htrue := hall _ hmem
    rw [Bool.and_eq_true, Bool.not_eq_true'] at htrue
    exact hadvanced.ready.mp htrue
  refine ⟨hready, ?_⟩
  have hmid := hadvanced.ready.mpr hready
  have hstuck : ¬Refuses validation block := by
    intro hrefuses
    obtain ⟨next, htree, htip, hend⟩ := @connectPath_refused B _ params validation mid block
      oldTip rest hclimbs.1 hmid.1 hrefuses
    cases hmidTip : mid.tip with
    | none =>
      rw [if_pos hmidTip] at hend
      have hempty : node.stepsTo params validation target (used + 0) = some (.error "" next) := by
        rw [hmore 0, hend]
        rfl
      exact not_setsTip_of_empty hknown hrefused hempty (by rw [htip]; exact hoff) hsets
    | some tip =>
      rw [if_neg (by rw [hmidTip]; exact nofun)] at hend
      rw [hmidTip] at htip hclimbs
      have hnone := @stepsTo_stuck B _ params validation next block target tip rest
        (by rw [htree]; exact hmid.1) hrefuses htip (by rw [htree]; exact hclimbs) hlast steps
      have hagain := hmore steps
      rw [hend, Nat.add_comm, stepsTo_add used hsteps] at hagain
      exact absurd (hagain.trans hnone) nofun
  cases hconnect : validation.connect block with
  | connected upgradeRequired => exact absurd ⟨hready, upgradeRequired, hconnect⟩ hbad
  | invalid => exact absurd (.inl hconnect) hstuck
  | corrupted => exact absurd (.inr hconnect) hstuck
  | failed reason =>
    refine ⟨reason, rfl, fun hempty => ?_⟩
    rw [hspec.decided hmid.1, hconnect, hempty] at htried
    have htip : tried.tip = mid.tip := hspec.tip.resolve_left fun ⟨_, hother⟩ => by
      rw [hspec.decided hmid.1, hconnect] at hother
      cases hother
    have hend : node.stepsTo params validation target (used + 0) = some (.error "" tried) := by
      rw [hmore 0, connectPath, htried]
      rfl
    exact not_setsTip_of_empty hknown hrefused hend (by rw [htip]; exact hoff) hsets

/-- Otherwise the loop does not end, or ends without the block and without an error. -/
theorem ends_of_setsTip :
    Ends params validation node target := by
  obtain hworks | ⟨front, block, rest, hleaving, hfront, hbad⟩ :=
    exists_front (fun block => validation.disconnect block = none) (node.leaving target)
  · obtain hconnects | ⟨front, block, rest, hpath, hfront, hbad⟩ :=
      exists_front (node.Connects validation) (node.tree.path node.contains target).reverse
    · refine .connects hworks (fun block hmem => hconnects block (List.mem_reverse.mpr hmem))
        fun hne hnil => ?_
      obtain ⟨-, -, used, hstopped⟩ | ⟨hleft, -⟩ := @climbed B _ params validation node target _ []
        hworks hne (List.append_nil _).symm hconnects
      · obtain ⟨steps, result, last, hsteps, hlast, -⟩ := hsets.result hknown hrefused
        rw [← stepsTo_unique (hstopped 0) hsteps] at hlast
        cases hlast
      · exact hleft (fun hempty => hne (List.reverse_eq_nil_iff.mp hempty)) hnil
    have hleft : front ≠ [] → remaining params node front ≠ [] := by
      intro hne hnil
      have hpathNe : node.tree.path node.contains target ≠ [] := by
        intro hempty
        rw [hempty] at hpath
        exact List.append_ne_nil_of_right_ne_nil _ (List.cons_ne_nil _ _) hpath.symm
      obtain ⟨-, -, used, hstopped⟩ | ⟨hleft, -⟩ := @climbed B _ params validation node target
        front (block :: rest) hworks hpathNe hpath hfront
      · obtain ⟨steps, result, last, hsteps, hlast, -⟩ := hsets.result hknown hrefused
        rw [← stepsTo_unique (hstopped 0) hsteps] at hlast
        cases hlast
      · exact hleft hne hnil
    obtain ⟨hready, reason, hfails, hreason⟩ :=
      hsets.unconnected hknown hrefused hworks hpath hfront hbad hleft
    exact .unconnected front rest block reason hworks hpath hfront hleft hready hfails hreason
  cases hfails : validation.disconnect block with
  | none => exact absurd hfails hbad
  | some reason =>
    refine .undisconnected front rest block reason hleaving hfront hfails fun hempty => ?_
    rw [hempty] at hfails
    have hmem : block ∈ node.leaving target := by
      rw [hleaving]
      exact List.mem_append_right _ (.head _)
    have hoff : node.tip ≠ some target := by
      intro htip
      rw [leaving_of_tip htip] at hmem
      cases hmem
    have hend : node.stepsTo params validation target 1 =
        some (.error "" { node with tip := some block }) := by
      rw [stepsTo_step hoff, step_failing hleaving hfront hfails]
      rfl
    refine not_setsTip_of_empty hknown hrefused hend (fun htip => ?_) hsets
    rw [Option.some.inj htip] at hmem
    exact not_mem_leaving hmem

end

/-- `SetLastBlock` ends and is sound exactly when it refuses the block at once, or reaches it,
or the system fails with a reason before anything else goes wrong. -/
theorem setLastBlock_sound_iff (params : NodeParams) (validation : Validation B) (readable : Bool)
    (node : Node B) (target : B) : SetsTip params validation readable node target ↔
      target ∉ node.index ∨ RefusedBefore readable node target ∨
        Ends params validation node target := by
  by_cases hknown : target ∈ node.index
  · obtain ⟨error, notFound, hrefused, herror, hbefore⟩ | ⟨hrefused, hnot⟩ :=
      @refused_spec B _ node target readable
    · refine ⟨fun _ => .inr (.inl hbefore), fun _ => setsTip_of_constant herror
        (fun rounds steps => setLastBlock_refused hknown hrefused) fun _ => ?_⟩
      rw [hrefused]
      exact nofun
    constructor
    · exact fun hsets => .inr (.inr (ends_of_setsTip hsets hknown hrefused))
    rintro (hunknown | hbefore | hends)
    · exact absurd hknown hunknown
    · exact absurd hbefore hnot
    · exact setsTip_of_ends hknown hrefused hends
  exact ⟨fun _ => .inl hknown, fun _ => setsTip_of_constant (by decide)
    (fun rounds steps => setLastBlock_unknown hknown) fun h => absurd h hknown⟩

local instance siblingsNonzero : NeZero 3 := inferInstance

def refuseSibling : Validation (Fin 3) :=
  ⟨fun block => if block = 2 then .invalid else .connected false, fun _ => none⟩

theorem run_twoSiblings : ∃ node,
    run withWallet (fun _ _ => True) (connectsOne ++ arrives 2) (newNode twoSiblings) = some node ∧
      2 ∈ node.index ∧ node.tree.path node.contains 2 = [2] ∧
      node.refused true 2 (node.tree.path node.contains 2) = none := by
  have hrun : ((run withWallet (fun _ _ => True) (connectsOne ++ arrives 2)
      (newNode twoSiblings)).map fun node =>
        (node.index, node.tree.path node.contains 2,
          node.refused true 2 (node.tree.path node.contains 2))) =
      some ([0, 1, 2], [2], none) := by
    decide +kernel
  obtain ⟨node, hnode, hshape⟩ := Option.map_eq_some_iff.mp hrun
  have hindex : node.index = [0, 1, 2] := congrArg Prod.fst hshape
  refine ⟨node, hnode, ?_, congrArg (fun shape => shape.2.1) hshape,
    congrArg (fun shape => shape.2.2) hshape⟩
  rw [hindex]
  exact .tail _ (.tail _ (.head _))

/-- The loop tries the sibling again and again: each step succeeds and leaves the tip where
the blocks part. -/
theorem setLastBlock_not_sound : ¬∀ (validation : Validation (Fin 3)) {node : Node (Fin 3)},
    Reached withWallet (fun _ _ => True) (newNode twoSiblings) node → ∀ target ∈ node.index,
      SetsTip withWallet validation true node target := by
  intro hsound
  obtain ⟨node, hrun, hknown, hpath, hrefused⟩ := run_twoSiblings
  have hsets := hsound refuseSibling (reached_of_run .start hrun) 2 hknown
  cases ends_of_setsTip hsets hknown hrefused with
  | connects _ hconnects _ =>
    obtain ⟨-, upgradeRequired, hconnect⟩ := hconnects 2 (by rw [hpath]; exact .head _)
    cases hconnect
  | undisconnected front rest block reason _ _ hfails _ => cases hfails
  | unconnected front rest block reason _ _ _ _ _ hfails _ =>
    unfold refuseSibling at hfails
    dsimp only at hfails
    split at hfails
    · cases hfails
    cases hfails

end Amberchain.BestChain.Node
