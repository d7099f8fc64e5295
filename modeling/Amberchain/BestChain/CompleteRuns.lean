import Amberchain.BestChain.BestCandidate
import Amberchain.BestChain.CompleteChanges
import Amberchain.BestChain.LastBlock

/-!
# The candidates over whole runs

The set holds every block that could be the next tip, and only blocks that can be connected, in
every state that is reached by operations which insert what becomes wanted.
`InvalidateBlock` of an active block does not: it inserts the invalid block for the others.
-/

namespace Amberchain.BestChain

variable {B : Type} [LinearOrder B]

/-- When candidates and the blocks before them have their data no assertion fails. -/
theorem ChainEnv.not_assertionFailed {env : ChainEnv B} {start : Selection B}
    (hfits : env.Fits start) {rounds : ℕ} : ∀ {state : Selection B}, Follows env start state →
      env.findMostWorkChain rounds state ≠ .assertionFailed := by
  induction rounds with
  | zero => exact fun _ => nofun
  | succ rounds ih =>
    intro state hstate
    obtain ⟨next, temp, hcollected, hround⟩ := round_spec hfits hstate rounds
    cases hround with
    | none hempty hresult =>
      rw [hresult]
      exact nofun
    | some block hgreatest hright hresult =>
      rw [hresult]
      exact nofun
    | again block above rest invalid hgreatest hpath hwrong hresult =>
      obtain ⟨candidate, -, hadjust⟩ := hcollected.source hgreatest.mem
      rw [hresult]
      exact ih ((hstate.collected hcollected).removeChain hpath hwrong hadjust)

namespace Node

open BlockTree

variable {params : NodeParams} {validation : Validation B} {node start : Node B} {block target : B}
  {steps : ℕ}

structure CandidatesRight (params : NodeParams) (node : Node B) : Prop where
  complete : ∀ block ∈ node.index, node.isValid BLOCK_VALID_TRANSACTIONS block = true →
    node.tree.chainTx block ≠ 0 →
    (∀ other ∈ node.tree.path node.contains block,
      node.selection.failed other = false ∧ other ∉ node.banned) →
    (∀ tip ∈ node.tip, node.less params block tip = false) → block ∈ node.candidates
  linked : ∀ candidate ∈ node.candidates, ∀ block,
    block = candidate ∨ block ∈ node.tree.path node.contains candidate →
    node.tree.haveData block = true ∧ node.tree.chainTx block ≠ 0
  asserts : ∀ verify rounds,
    (node.env params verify).findMostWorkChain rounds node.selection ≠ .assertionFailed

theorem Fine.right (hnode : Fine params none node) : CandidatesRight params node where
  complete block _ hvalid hlinked hpath hbetter := by
    unfold isValid at hvalid
    rw [Bool.and_eq_true, Bool.not_eq_true'] at hvalid
    refine hnode.complete block ⟨hvalid.1, hlinked, fun hbanned => ?_⟩ hbetter nofun
    by_contra hoff
    exact (hpath block (self_mem_path (path_ne_nil (Bool.eq_false_iff.mpr hoff)))).2 hbanned
  linked candidate hcandidate block hblock := by
    have hmember := hnode.linked.members candidate hcandidate
    have hlinked : node.tree.chainTx block ≠ 0 := by
      cases hblock with
      | inl heq =>
        rw [heq]
        exact hmember
      | inr hmem => exact hnode.linked.ancestor (ancestor_of_mem_path hmem) hmember
    exact ⟨hnode.linked.data hlinked, hlinked⟩
  asserts verify rounds := by
    refine ChainEnv.not_assertionFailed (fun candidate hcandidate block hancestor => ?_) (.refl _)
    have hlinked := hnode.linked.ancestor hancestor (hnode.linked.members candidate hcandidate)
    change (node.tree.haveData block &&
      (decide (node.tree.chainTx block ≠ 0) || decide (node.tree.height block = 0))) = true
    rw [hnode.linked.data hlinked, decide_eq_true hlinked]
    rfl

omit [LinearOrder B] in
theorem chainWork_of_ancestor (hgrows : node.tree.WorkGrows)
    (hancestor : Ancestor node.tree target block) :
    target = block ∨ node.tree.chainWork target < node.tree.chainWork block := by
  induction hancestor with
  | refl => exact .inl rfl
  | step hparent _ ih =>
    have hstep := hgrows hparent
    cases ih with
    | inl heq =>
      rw [heq]
      exact .inr hstep
    | inr hless => exact .inr (Nat.lt_trans hless hstep)

/-- What `SetLastBlock` has to meet: what is disconnected and connected works, the blocks of the
path may be connected, and the block is not worse than the tip. -/
structure LastGood (params : NodeParams) (validation : Validation B) (node : Node B) (target : B) :
    Prop where
  works : ∀ block ∈ node.leaving target, validation.disconnect block = none
  connects : ∀ block ∈ node.tree.path node.contains target,
    node.Connects validation block ∧ node.MayConnect block
  better : NotWorse params node node.tip target

/-- The node after the path has been connected. -/
theorem Fine.advanced {mid : Node B} (hnode : Fine params none node)
    (hgood : LastGood params validation node target)
    (hne : node.tree.path node.contains target ≠ [])
    (hadvanced : Advanced params (node.atFork target) mid
      (node.tree.path node.contains target).reverse) (htip : mid.tip = some target) :
    Fine params none mid ∧ mid.tree.chainTx target ≠ 0 := by
  have htree : mid.tree = node.tree := hadvanced.tree
  have hlinked : node.tree.chainTx target ≠ 0 := (hgood.connects target (self_mem_path hne)).2.1
  have hless : mid.less params = node.less params := less_of_tree htree
  refine ⟨⟨?_, ?_⟩, by rw [htree]; exact hlinked⟩
  · refine hnode.linked.same ⟨by rw [htree], by rw [htree], by rw [htree], by rw [htree],
      by rw [htree], hadvanced.index, hadvanced.txCount, hadvanced.unlinked, hadvanced.valid⟩
      (fun other hother => ?_) fun top htop => ?_
    · rw [hadvanced.candidates] at hother
      exact hnode.linked.members other (candidates_of_remaining other hother)
    rw [htip] at htop
    cases htop
    exact hlinked
  intro other hbelongs hbetter _
  have hnotWorse : node.less params other target = false := by
    rw [← hless]
    exact hbetter target htip
  have hmem : other ∈ node.candidates := by
    refine hnode.complete other ⟨?_, ?_, fun hbanned => ?_⟩ (fun top htop =>
      not_less_trans hnotWorse (hgood.better top htop)) nofun
    · have hright := hbelongs.valid
      rw [hadvanced.failed] at hright
      exact hright
    · rw [← htree]
      exact hbelongs.linked
    obtain ⟨top, htop, hancestor⟩ := contains_iff.mp
      (hbelongs.allowed (by rw [hadvanced.banned]; exact hbanned))
    rw [htip] at htop
    cases htop
    rw [htree] at hancestor
    obtain hpath | ⟨fork, hfork, hbelow⟩ := @mem_path_or_fork B _ _ _ node.contains hancestor
    · exact absurd hbanned (hgood.connects other hpath).2.2
    obtain ⟨top, htop, habove⟩ := contains_iff.mp (forkOf_spec hfork).1
    exact contains_iff.mpr ⟨top, htop, Ancestor.trans hbelow habove⟩
  rw [hadvanced.candidates]
  refine mem_remaining hmem fun top htop => ?_
  have hancestor := ancestor_of_mem_path (List.mem_reverse.mp htop)
  cases chainWork_of_ancestor hnode.linked.grows hancestor with
  | inl heq =>
    rw [heq]
    exact hnotWorse
  | inr hwork => exact not_less_trans hnotWorse (not_less_of_chainWork hwork)

/-- The loop of `SetLastBlock` reaches the block, or an assertion fails. -/
theorem Fine.stepsTo {result : Done B} (hnode : Fine params none node)
    (hgood : LastGood params validation node target)
    (hsteps : node.stepsTo params validation target steps = some result) : result = .stopped ∨
      ∃ last, result = .ok last ∧ Fine params none last ∧ last.tree.chainTx target ≠ 0 := by
  by_cases hne : node.tree.path node.contains target = []
  · have hactive : node.contains target = true := by
      by_contra hnot
      exact path_ne_nil (Bool.eq_false_iff.mpr hnot) hne
    obtain ⟨tip, htip, hancestor⟩ := contains_iff.mp hactive
    cases chainWork_of_ancestor hnode.linked.grows hancestor with
    | inl heq =>
      rw [← heq] at htip
      rw [stepsTo_at htip] at hsteps
      cases hsteps
      exact .inr ⟨node, rfl, hnode, hnode.linked.tip target htip⟩
    | inr hwork =>
      have hless := hgood.better tip htip
      rw [less_of_chainWork hwork] at hless
      cases hless
  obtain ⟨-, -, used, hstopped⟩ | ⟨-, used, oldTip, mid, hadvanced, hmore⟩ :=
    @climbed B _ params validation node target _ [] hgood.works hne (List.append_nil _).symm
      fun block hblock => (hgood.connects block (List.mem_reverse.mp hblock)).1
  · exact .inl (stepsTo_unique hsteps (hstopped 0))
  have htip : mid.tip = some target := by
    obtain ⟨rest, hcons⟩ := path_eq_cons hne
    rw [hadvanced.tip, List.getLast?_reverse, hcons]
    rfl
  have hreached := (hmore 0).trans (@stepsTo_at B _ params validation _ _ htip 0)
  exact .inr ⟨mid, stepsTo_unique hsteps hreached, hnode.advanced hgood hne hadvanced htip⟩

theorem Fine.setLastBlock {readable : Bool} {rounds : List (Round B)} {answer : Answer B}
    (hnode : Fine params none node)
    (hgood : target ∉ node.index ∨ RefusedBefore readable node target ∨
      LastGood params validation node target)
    (hanswer : node.setLastBlock params validation readable rounds target steps = some answer) :
    Fine params none answer.node := by
  by_cases hknown : target ∈ node.index
  · obtain ⟨error, notFound, hrefused, -, -⟩ | ⟨hrefused, hnot⟩ :=
      @refused_spec B _ node target readable
    · rw [setLastBlock_refused hknown hrefused] at hanswer
      cases hanswer
      exact hnode
    have hlast := (hgood.resolve_left (not_not.mpr hknown)).resolve_left hnot
    rw [setLastBlock_eq hknown hrefused] at hanswer
    cases hsteps : node.stepsTo params validation target steps with
    | none =>
      rw [hsteps] at hanswer
      cases hanswer
    | some result =>
      rw [hsteps] at hanswer
      obtain rfl | ⟨last, rfl, hfine, hlinked⟩ := hnode.stepsTo hlast hsteps
      · cases hanswer
      cases hanswer
      exact hfine.insert hlinked
  rw [setLastBlock_unknown hknown] at hanswer
  cases hanswer
  exact hnode

/-- What each operation has to meet where it starts. -/
def KeepsComplete (params : NodeParams) (node : Node B) : Op B → Prop
  | .header _ | .block _ _ _ _ _ | .prune => True
  | .activate rounds => RoundsGood params rounds node
  | .invalidate _ block => node.contains block = false ∧
      ((∃ other ∈ node.index, node.betterThanTip params other = some true) →
        node.tree.chainTx block ≠ 0)
  | .reconsider block => block ∈ node.index ∧
      (∀ other, node.selection.failed other = true → other ≠ block →
        Ancestor node.tree other block → node.tree.chainTx other ≠ 0 →
        (other ∈ node.banned → node.contains other = true) →
        NotWorse params node node.tip other → other ∈ node.candidates) ∧
      ∀ tip ∈ node.tip, node.selection.failed tip = true → tip ∈ node.candidates
  | .banned => ∀ block ∈ node.banned, block ∈ node.index → node.tree.chainTx block ≠ 0
  | .last validation readable _ target _ =>
    target ∉ node.index ∨ RefusedBefore readable node target ∨
      LastGood params validation node target

theorem Fine.apply {op : Op B} {next : Node B} (hnode : Fine params none node)
    (hkeeps : KeepsComplete params node op) (hnext : node.apply params op = some next) :
    Fine params none next := by
  cases op with
  | header block =>
    cases hnext
    exact hnode.acceptBlockHeader block
  | block signer txCount hasBannedTx verify block =>
    cases hnext
    exact hnode.acceptBlock block
  | activate rounds => exact Activation.All.left (hnode.rounds hkeeps) hnext
  | invalidate validation block =>
    exact Done.All.left (hnode.invalidateBlock hkeeps.1 hkeeps.2) hnext
  | reconsider block =>
    exact Done.All.left (hnode.reconsiderBlock hkeeps.1 hkeeps.2.1 hkeeps.2.2) hnext
  | banned =>
    cases hnext
    exact hnode.setBannedTxs hkeeps
  | last validation readable rounds target steps =>
    obtain ⟨answer, hanswer, rfl⟩ := Option.map_eq_some_iff.mp hnext
    exact hnode.setLastBlock hkeeps hanswer
  | prune => exact hnode.prune hnext

theorem Fresh.fine (hgrows : node.tree.WorkGrows) (hfresh : node.Fresh) : Fine params none node := by
  obtain ⟨-, htip, hcandidates, -, hunlinked, hblocks⟩ := hfresh
  have hno : ∀ {block : B}, node.tree.chainTx block ≠ 0 → False := fun {block} hlinked =>
    hlinked (hblocks block).2.1
  constructor
  · exact {
      grows := hgrows
      closed := fun hlinked => (hno hlinked).elim
      data := fun hlinked => (hno hlinked).elim
      valid := by
        intro block hdata
        rw [(hblocks block).1] at hdata
        cases hdata
      known := fun hlinked => (hno hlinked).elim
      members := by
        rw [hcandidates]
        exact nofun
      tip := by
        rw [htip]
        exact nofun
      waits := by
        rw [hunlinked]
        exact nofun }
  exact fun block hbelongs => (hno hbelongs.linked).elim

/-- In every state that a node reaches from nothing, the candidates are complete and well formed
and no assertion of `FindMostWorkChain` fails. -/
theorem candidates_complete (hgrows : start.tree.WorkGrows) (hfresh : start.Fresh)
    (hreached : Reached params (KeepsComplete params) start node) : CandidatesRight params node := by
  have hfine : Fine params none node := by
    induction hreached with
    | start => exact hfresh.fine hgrows
    | step _ op hkeeps hnext ih => exact ih.apply hkeeps hnext
  exact hfine.right

local instance arrivedNonzero : NeZero 3 := inferInstance

def firstArrived : Node (Fin 3) :=
  ((newNode twoSiblings).acceptBlockHeader 0).acceptBlock withWallet ⟨256, false, 1, 1⟩ 1 false
    (fun _ _ => (true, fun _ => true)) 0

theorem roundGood_firstArrived : RoundGood withWallet (smooth _ true true) firstArrived := by
  refine ⟨nofun, fun found hfound => ?_, fun found hfound => ?_⟩
  · have hshape : (firstArrived.beforeStep withWallet (smooth _ true true)).map (fun found =>
        (found.2.leaving found.1, (found.2.tree.path found.2.contains found.1).reverse,
          found.2.tip)) = some ([], [0], none) := by
      decide +kernel
    rw [Option.mem_def.mp hfound] at hshape
    have hall := Option.some.inj hshape
    have hleaving : found.2.leaving found.1 = [] := congrArg Prod.fst hall
    have htip : found.2.tip = none := congrArg (fun shape => shape.2.2) hall
    refine ⟨fun block hblock => ?_, [], 0, [], congrArg (fun shape => shape.2.1) hall, nofun,
      ⟨false, rfl⟩, ?_⟩
    · rw [hleaving] at hblock
      cases hblock
    rw [htip]
    exact nofun
  have hshape : (firstArrived.afterStep withWallet (smooth _ true true)).map (fun found =>
      (found.2.candidates, found.2.index, found.2.tree.chainTx 1, found.2.tree.chainTx 2)) =
        some ([0], [0], 0, 0) := by
    decide +kernel
  rw [Option.mem_def.mp hfound] at hshape
  have hall := Option.some.inj hshape
  have hcandidates : found.2.candidates = [0] := congrArg Prod.fst hall
  intro tip _ block hbelongs hout
  match block with
  | 0 => exact absurd (by rw [hcandidates]; exact .head _) hout
  | 1 => exact absurd (congrArg (fun shape => shape.2.2.1) hall) hbelongs.linked
  | 2 => exact absurd (congrArg (fun shape => shape.2.2.2) hall) hbelongs.linked

/-- The first block is connected. -/
theorem candidates_complete_first : ∃ node : Node (Fin 3), node.tip = some 0 ∧
    node.candidates = [0] ∧ CandidatesRight withWallet node := by
  have hgrows : (newNode twoSiblings).tree.WorkGrows := by
    intro block parent
    revert block parent
    decide
  have hfresh : (newNode twoSiblings).Fresh :=
    ⟨rfl, rfl, rfl, rfl, rfl, fun _ => ⟨rfl, rfl, rfl, rfl⟩⟩
  have harrived : Reached withWallet (KeepsComplete withWallet) (newNode twoSiblings)
      firstArrived :=
    .step (.step .start (.header 0) trivial rfl)
      (.block ⟨256, false, 1, 1⟩ 1 false (fun _ _ => (true, fun _ => true)) 0) trivial rfl
  have hshape : (firstArrived.apply withWallet (.activate [smooth _ true true])).map
      (fun node => (node.tip, node.candidates)) = some (some 0, [0]) := by
    decide +kernel
  obtain ⟨node, hnext, hnode⟩ := Option.map_eq_some_iff.mp hshape
  have hgood : KeepsComplete withWallet firstArrived (.activate [smooth _ true true]) :=
    ⟨roundGood_firstArrived, fun _ _ => trivial⟩
  exact ⟨node, congrArg Prod.fst hnode, congrArg Prod.snd hnode,
    candidates_complete hgrows hfresh (.step harrived _ hgood hnext)⟩

/-- When the tip is invalidated the block before it is the tip, and is not a candidate. -/
theorem candidates_not_complete : ¬∀ {node : Node (Fin 3)},
    Reached withWallet (fun _ _ => True) (newNode twoSiblings) node →
      CandidatesRight withWallet node := by
  intro hright
  have hshape : ((run withWallet (fun _ _ => True) (connectsOne ++
      [.invalidate ⟨fun _ => .connected false, fun _ => none⟩ 1]) (newNode twoSiblings)).map
        fun node => decide (node.index = [0, 1] ∧ node.isValid BLOCK_VALID_TRANSACTIONS 0 = true ∧
          node.tree.chainTx 0 = 1 ∧ node.tree.path node.contains 0 = [] ∧ node.tip = some 0 ∧
          node.less withWallet 0 0 = false ∧ node.candidates = [])) = some true := by
    decide +kernel
  obtain ⟨node, hrun, hall⟩ := Option.map_eq_some_iff.mp hshape
  obtain ⟨hindex, hvalid, hlinked, hpath, htip, hless, hcandidates⟩ := of_decide_eq_true hall
  have hmem := (hright (reached_of_run .start hrun)).complete 0
    (by rw [hindex]; exact .head _) hvalid (by rw [hlinked]; exact Nat.one_ne_zero)
    (by rw [hpath]; exact nofun) fun tip hmem => by
      rw [htip] at hmem
      cases hmem
      exact hless
  rw [hcandidates] at hmem
  cases hmem

end Node

end Amberchain.BestChain
