import Amberchain.BestChain.LastBlockSteps

/-!
# The loop towards a block

As long as the blocks of the path connect, step after step brings the tip up the path.  A
block that is refused leaves the tip below it, and the next step meets the same block again.
-/

namespace Amberchain.BestChain.Node

open BlockTree

variable {B : Type} [LinearOrder B] {params : NodeParams} {validation : Validation B}
  {node next start : Node B} {block target tip : B} {steps : ℕ}

/-- The loop of `SetLastBlock` after a step. -/
def goesOn (params : NodeParams) (validation : Validation B) (target : B) (steps : ℕ) :
    Done B → Option (Done B)
  | .ok node => node.stepsTo params validation target steps
  | other => some other

theorem stepsTo_at (htip : node.tip = some target) (steps : ℕ) :
    node.stepsTo params validation target steps = some (.ok node) := by
  unfold stepsTo
  exact if_pos htip

theorem stepsTo_step (htip : node.tip ≠ some target) (steps : ℕ) :
    node.stepsTo params validation target (steps + 1) = goesOn params validation target steps
        (node.activateBestChainStep params validation target) := by
  rw [stepsTo, if_neg htip]
  cases node.activateBestChainStep params validation target <;> rfl

/-- More steps make no difference once the loop has ended. -/
theorem stepsTo_add {result : Done B} (more : ℕ)
    (hresult : node.stepsTo params validation target steps = some result) :
    node.stepsTo params validation target (steps + more) = some result := by
  induction steps generalizing node with
  | zero =>
    by_cases htip : node.tip = some target
    · rw [stepsTo_at htip] at hresult ⊢
      exact hresult
    unfold stepsTo at hresult
    rw [if_neg htip] at hresult
    cases hresult
  | succ steps ih =>
    by_cases htip : node.tip = some target
    · rw [stepsTo_at htip] at hresult ⊢
      exact hresult
    rw [Nat.succ_add, stepsTo_step htip]
    rw [stepsTo_step htip] at hresult
    cases hstep : node.activateBestChainStep params validation target with
    | ok next =>
      rw [hstep] at hresult
      exact ih hresult
    | error reason next =>
      rw [hstep] at hresult
      exact hresult
    | stopped =>
      rw [hstep] at hresult
      exact hresult

/-- A tip on the way to the block: nothing is disconnected, and the rest of the path follows. -/
theorem onPath {up : List B} (htip : node.tip = some tip)
    (hclimbs : Climbs node.tree (some tip) up) (hlast : up.getLast? = some target) :
    node.tip ≠ some target ∧ node.activateBestChainStep params validation target =
      connectPath params validation node.tip up node := by
  have hnot : ∀ block ∈ up, node.contains block = false := fun block hblock =>
    not_contains_of_height htip (hclimbs.ancestor block hblock).2
  have hpath : node.tree.path node.contains target = up.reverse :=
    path_of_climbs hclimbs (contains_tip htip) hnot (by rw [hlast]; rfl)
  have hfork : node.findFork target = some tip := by
    rw [findFork_eq]
    unfold forkOf
    rw [hpath, List.getLast?_reverse]
    cases up with
    | nil => cases hlast
    | cons first rest => exact hclimbs.1
  have hleaving : node.leaving target = [] := by
    unfold leaving
    rw [htip]
    exact path_of_active (decide_eq_true hfork)
  have hat : node.atFork target = node := by
    unfold atFork
    rw [hfork, ← htip]
  refine ⟨fun heq => ?_, ?_⟩
  · have hin := contains_tip heq
    rw [hnot target (List.mem_of_mem_getLast? hlast)] at hin
    cases hin
  have hworks : ∀ block ∈ node.leaving target, validation.disconnect block = none := by
    rw [hleaving]
    exact nofun
  rw [step_eq hworks, hpath, List.reverse_reverse, hat]

/-- The loop from a node comes to connecting the rest of a path when the front has been
connected to the start; or the assertion fails because no candidate is left. -/
def Climbed (params : NodeParams) (validation : Validation B) (target : B) (node start : Node B)
    (front rest : List B) : Prop :=
  (front ≠ [] ∧ remaining params start front = [] ∧
    ∃ used, ∀ more, node.stepsTo params validation target (used + more) = some .stopped) ∨
  (front ≠ [] → remaining params start front ≠ []) ∧
    ∃ used oldTip mid, Advanced params start mid front ∧
      ∀ more, node.stepsTo params validation target (used + more) =
        goesOn params validation target more (connectPath params validation oldTip rest mid)

/-- Step after step: a step that ends early is resumed by the next one. -/
theorem climbed_of_step {rest : List B} :
    ∀ {front : List B} {node start : Node B} {oldTip : Option B}, node.tip ≠ some target →
      node.activateBestChainStep params validation target =
        connectPath params validation oldTip (front ++ rest) start →
      Climbs start.tree start.tip (front ++ rest) → (front ++ rest).getLast? = some target →
      (∀ block ∈ front, start.Connects validation block) →
      Climbed params validation target node start front rest := by
  intro front
  induction hsize : front.length using Nat.strong_induction_on generalizing front with
  | _ size ih =>
    intro node start oldTip htip hstep hclimbs hlast hconnects
    have hfirst : ∀ more, node.stepsTo params validation target (1 + more) =
        goesOn params validation target more
          (connectPath params validation oldTip (front ++ rest) start) := by
      intro more
      rw [Nat.add_comm, stepsTo_step htip, hstep]
    obtain ⟨hne, hnil, hstopped⟩ | ⟨done, todo, mid, hfront, hmid, hkept, hends⟩ :=
      @connectPath_front B _ params validation oldTip front rest start hclimbs hconnects
    · refine .inl ⟨hne, hnil, 1, fun more => ?_⟩
      rw [hfirst, hstopped]
      rfl
    obtain ⟨hdone, hearly⟩ | ⟨htodo, hall⟩ := hends
    · -- the step ends early, and the next one goes on from there
      have hup : Climbs mid.tree mid.tip (todo ++ rest) := by
        rw [hfront, List.append_assoc, Climbs.append] at hclimbs
        rw [hmid.tree, hmid.tip]
        exact hclimbs.2
      obtain ⟨top, htop⟩ : ∃ top, mid.tip = some top := by
        rw [hmid.tip, List.getLast?_eq_some_getLast hdone]
        exact ⟨_, rfl⟩
      by_cases hend : todo ++ rest = []
      · obtain ⟨htodo, hrest⟩ := List.append_eq_nil_iff.mp hend
        rw [htodo, List.append_nil] at hfront
        rw [hfront]
        refine .inr ⟨hkept, 1, none, mid, hmid, fun more => ?_⟩
        rw [hfirst, hearly, hrest]
        rfl
      have hlast' : (todo ++ rest).getLast? = some target := by
        rw [hfront, List.append_assoc, List.getLast?_append_of_ne_nil _ hend] at hlast
        exact hlast
      rw [htop] at hup
      obtain ⟨hoff, hnext⟩ := @onPath B _ params validation mid target top _ htop hup hlast'
      have hless : todo.length < size := by
        have hpos := List.length_pos_iff.mpr hdone
        rw [← hsize, hfront, List.length_append]
        omega
      rw [← htop] at hup
      obtain ⟨-, hnil, used, hstopped⟩ | ⟨hleft, used, oldTip, last, hadvanced, hmore⟩ :=
        ih todo.length hless rfl hoff hnext hup hlast' fun other hother =>
          hmid.connects.mpr (hconnects other (by rw [hfront]; exact List.mem_append_right _ hother))
      · rw [hmid.remaining, ← hfront] at hnil
        refine .inl ⟨?_, hnil, 1 + used, fun more => ?_⟩
        · rw [hfront]
          exact List.append_ne_nil_of_left_ne_nil hdone _
        rw [Nat.add_assoc, hfirst, hearly]
        exact hstopped more
      have hjoined := hmid.trans hadvanced
      rw [← hfront] at hjoined
      refine .inr ⟨fun _ => ?_, 1 + used, oldTip, last, hjoined, fun more => ?_⟩
      · rw [hfront, ← hmid.remaining]
        cases todo with
        | nil =>
          rw [hmid.remaining, List.append_nil]
          exact hkept hdone
        | cons other todo => exact hleft (List.cons_ne_nil _ _)
      rw [Nat.add_assoc, hfirst, hearly]
      exact hmore more
    · rw [htodo, List.append_nil] at hfront
      rw [← hfront] at hmid hkept
      refine .inr ⟨hkept, 1, oldTip, mid, hmid, fun more => ?_⟩
      rw [hfirst, hall]

/-- The loop towards a block off the active chain. -/
theorem climbed {front rest : List B}
    (hworks : ∀ block ∈ node.leaving target, validation.disconnect block = none)
    (hne : node.tree.path node.contains target ≠ [])
    (hsplit : (node.tree.path node.contains target).reverse = front ++ rest)
    (hconnects : ∀ block ∈ front, node.Connects validation block) :
    Climbed params validation target node (node.atFork target) front rest := by
  have hoff : node.tip ≠ some target := fun htip => hne (path_of_active (contains_tip htip))
  refine climbed_of_step hoff (by rw [step_eq hworks, hsplit]) ?_ ?_ hconnects
  · rw [← hsplit]
    unfold atFork
    rw [findFork_eq]
    exact climbs_path
  obtain ⟨rest, hcons⟩ := path_eq_cons hne
  rw [← hsplit, List.getLast?_reverse, hcons]
  rfl

/-- The loop down to a block of the active chain. -/
theorem stepsTo_active (hworks : ∀ block ∈ node.leaving target, validation.disconnect block = none)
    (hactive : node.contains target = true) :
    ∃ used, ∀ more, node.stepsTo params validation target (used + more) =
      some (.ok (node.atFork target)) := by
  have hfork : node.findFork target = some target := by
    rw [findFork_eq]
    exact forkOf_of_active hactive
  have hat : (node.atFork target).tip = some target := hfork
  by_cases htip : node.tip = some target
  · refine ⟨0, fun more => ?_⟩
    have hsame : node.atFork target = node := by
      unfold atFork
      rw [hfork, ← htip]
    rw [stepsTo_at htip, hsame]
  refine ⟨1, fun more => ?_⟩
  rw [Nat.add_comm, stepsTo_step htip, step_eq hworks, path_of_active hactive]
  exact stepsTo_at hat more

/-- What `ConnectTip` does in any case. -/
structure Tried (validation : Validation B) (node : Node B) (block : B) (result : ConnectResult)
    (next : Node B) : Prop where
  tree : next.tree = node.tree
  attempts : next.attempts = node.attempts ++
    [(block, node.tree.haveData block && !node.selection.failed block)]
  decided : node.tree.haveData block = true → result = validation.connect block
  unread : node.tree.haveData block = false → result = .failed "Failed to read block"
  tip : (∃ upgradeRequired, result = .connected upgradeRequired) ∨ next.tip = node.tip
  top : (∃ upgradeRequired, result = .connected upgradeRequired) → next.tip = some block
  failed : (∃ upgradeRequired, result = .connected upgradeRequired) →
    ∀ other, next.selection.failed other = node.selection.failed other

theorem connectTip_tried (hparent : node.tree.pprev block = node.tip) :
    ∃ result next, node.connectTip params validation block = some (result, next) ∧
      Tried validation node block result next := by
  obtain ⟨validity, hraise, -⟩ := @raiseValidity_eq B _
    { node with
      attempts := node.attempts ++
        [(block, node.tree.haveData block && !node.selection.failed block)] }
    BLOCK_VALID_SCRIPTS block
  unfold connectTip
  rw [if_neg (not_not.mpr hparent)]
  dsimp only at hraise ⊢
  rw [hraise]
  cases hdata : node.tree.haveData block with
  | false =>
    exact ⟨_, _, rfl, {
      tree := rfl
      attempts := by rw [hdata]
      decided := fun htrue => absurd (hdata.symm.trans htrue) Bool.false_ne_true
      unread := fun _ => rfl
      tip := .inr rfl
      top := fun ⟨_, hother⟩ => nomatch hother
      failed := fun ⟨_, hother⟩ => nomatch hother }⟩
  | true =>
    have hread : ∀ {result : Prop}, node.tree.haveData block = false → result := fun hfalse =>
      absurd (hfalse.symm.trans hdata) Bool.false_ne_true
    cases hconnect : validation.connect block with
    | connected upgradeRequired =>
      exact ⟨_, _, rfl, {
        tree := rfl
        attempts := by rw [hdata]
        decided := fun _ => hconnect.symm
        unread := hread
        tip := .inl ⟨upgradeRequired, rfl⟩
        top := fun _ => rfl
        failed := fun _ _ => rfl }⟩
    | invalid =>
      exact ⟨_, _, rfl, {
        tree := rfl
        attempts := by
          rw [hdata]
          rfl
        decided := fun _ => hconnect.symm
        unread := hread
        tip := .inr rfl
        top := fun ⟨_, hother⟩ => nomatch hother
        failed := fun ⟨_, hother⟩ => nomatch hother }⟩
    | corrupted =>
      exact ⟨_, _, rfl, {
        tree := rfl
        attempts := by rw [hdata]
        decided := fun _ => hconnect.symm
        unread := hread
        tip := .inr rfl
        top := fun ⟨_, hother⟩ => nomatch hother
        failed := fun ⟨_, hother⟩ => nomatch hother }⟩
    | failed reason =>
      exact ⟨_, _, rfl, {
        tree := rfl
        attempts := by rw [hdata]
        decided := fun _ => hconnect.symm
        unread := hread
        tip := .inr rfl
        top := fun ⟨_, hother⟩ => nomatch hother
        failed := fun ⟨_, hother⟩ => nomatch hother }⟩

def Refuses (validation : Validation B) (block : B) : Prop :=
  validation.connect block = .invalid ∨ validation.connect block = .corrupted

/-- A step ends at a block that is refused, with success unless there is no chain. -/
theorem connectPath_refused {oldTip : Option B} {rest : List B}
    (hparent : node.tree.pprev block = node.tip) (hdata : node.tree.haveData block = true)
    (hrefuses : Refuses validation block) : ∃ next, next.tree = node.tree ∧ next.tip = node.tip ∧
      connectPath params validation oldTip (block :: rest) node =
        if node.tip = none then .error "" next else .ok next := by
  obtain ⟨result, next, htried, hspec⟩ := @connectTip_tried B _ params validation node block hparent
  have hresult := hspec.decided hdata
  have htip : next.tip = node.tip := hspec.tip.resolve_left fun hconnected => by
    obtain ⟨upgradeRequired, hconnected⟩ := hconnected
    rw [hconnected] at hresult
    cases hrefuses with
    | inl hinvalid =>
      rw [hinvalid] at hresult
      cases hresult
    | inr hcorrupted =>
      rw [hcorrupted] at hresult
      cases hresult
  refine ⟨next, hspec.tree, htip, ?_⟩
  rw [connectPath, htried]
  cases hrefuses with
  | inl hinvalid =>
    rw [hinvalid] at hresult
    rw [hresult, ← htip]
  | inr hcorrupted =>
    rw [hcorrupted] at hresult
    rw [hresult, ← htip]

/-- The loop meets the same block again and again. -/
theorem stepsTo_stuck {rest : List B} (hdata : node.tree.haveData block = true)
    (hrefuses : Refuses validation block) (htip : node.tip = some tip)
    (hclimbs : Climbs node.tree (some tip) (block :: rest))
    (hlast : (block :: rest).getLast? = some target) (steps : ℕ) :
    node.stepsTo params validation target steps = none := by
  induction steps generalizing node with
  | zero =>
    exact if_neg (@onPath B _ params validation node target tip _ htip hclimbs hlast).1
  | succ steps ih =>
    obtain ⟨hoff, hstep⟩ := @onPath B _ params validation node target tip _ htip hclimbs hlast
    obtain ⟨next, htree, hnext, hpath⟩ := @connectPath_refused B _ params validation node block
      node.tip rest (by rw [htip]; exact hclimbs.1) hdata hrefuses
    rw [stepsTo_step hoff, hstep, hpath, if_neg (by rw [htip]; exact nofun)]
    rw [htip] at hnext
    rw [← htree] at hdata hclimbs
    exact ih hdata hnext hclimbs

end Amberchain.BestChain.Node
