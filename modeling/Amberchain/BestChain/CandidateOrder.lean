import Amberchain.BestChain.NodeRules

/-!
# The candidates stay in order

The comparator reads fields that change.  What a function does to the set keeps its order; what
it does to the fields of a block keeps it exactly when that block, if it is in the set, stays on
its side of every other one.
-/

namespace Amberchain.BestChain.Node

variable {B : Type} [LinearOrder B] {params : NodeParams} {node next : Node B}

theorem strict_less (params : NodeParams) (node : Node B) :
    OrderedSet.Strict (node.less params) where
  irrefl block := by
    have hnot := lt_irrefl ((node.env params fun _ _ => (false, fun _ => false)).key block)
    rw [← ChainEnv.less_iff] at hnot
    exact Bool.eq_false_iff.mpr hnot
  trans hfirst hsecond := by
    unfold less at hfirst hsecond ⊢
    rw [ChainEnv.less_iff] at hfirst hsecond ⊢
    exact lt_trans hfirst hsecond
  total hnot hne := ChainEnv.less_of_not_less hnot hne

/-- The fields of a block that the comparator reads. -/
def keys (node : Node B) (block : B) : ℕ × ℕ × ℤ × ℕ :=
  (node.tree.chainWork block, node.tree.canMine block, node.tree.heightMinedByMe block,
    node.tree.sequenceId block)

theorem less_of_keys {first second : B} (hfirst : next.keys first = node.keys first)
    (hsecond : next.keys second = node.keys second) :
    next.less params first second = node.less params first second := by
  unfold keys at hfirst hsecond
  simp only [Prod.mk.injEq] at hfirst hsecond
  unfold less ChainEnv.less env
  rw [hfirst.1, hfirst.2.1, hfirst.2.2.1, hfirst.2.2.2, hsecond.1, hsecond.2.1, hsecond.2.2.1,
    hsecond.2.2.2]

/-- The candidates are strictly increasing under the comparator as the fields are now. -/
def Increasing (params : NodeParams) (node : Node B) : Prop :=
  OrderedSet.Sorted (node.less params) node.candidates

theorem Increasing.insert (hnode : node.Increasing params) (block : B) :
    (node.insertCandidate params block).Increasing params :=
  OrderedSet.sorted_insert (strict_less params node) hnode block

theorem Increasing.sublist {candidates : List B} (hnode : node.Increasing params)
    (hsub : candidates.Sublist node.candidates) : (node.setCandidates candidates).Increasing params :=
  OrderedSet.sorted_of_sublist hnode hsub

theorem Increasing.erase (hnode : node.Increasing params) (block : B) :
    (node.eraseCandidate params block).Increasing params :=
  hnode.sublist (OrderedSet.erase_sublist block node.candidates)

theorem Increasing.prune (hnode : node.Increasing params)
    (hnext : node.pruneBlockIndexCandidates params = some next) : next.Increasing params := by
  unfold pruneBlockIndexCandidates at hnext
  split at hnext
  · cases hnext
  rename_i tip _
  have hsub := List.dropWhile_sublist (l := node.candidates)
    fun candidate => node.less params candidate tip
  split at hnext
  · cases hnext
  cases hnext
  exact hnode.sublist hsub

/-- Choosing a chain only removes candidates. -/
theorem findMostWorkChain_sublist {env : ChainEnv B} {rounds : ℕ} {start final : Selection B}
    {result : Option B} (hresult : env.findMostWorkChain rounds start = .returned result final) :
    final.candidates.Sublist start.candidates := by
  induction rounds generalizing start with
  | zero => cases hresult
  | succ rounds ih =>
    obtain ⟨collected, temp, hcollect, hcollected⟩ := env.collect_spec start.candidates start []
    unfold ChainEnv.findMostWorkChain at hresult
    rw [hcollect] at hresult
    dsimp only at hresult
    have hsame := hcollected.same
    split at hresult
    · cases hresult
      rw [hsame]
    split at hresult
    · cases hresult
      rw [hsame]
    · cases hresult
    rename_i above block _
    have hrest := ih hresult
    have hremoved : (collected.removeChain above block).candidates.Sublist
        collected.candidates := List.filter_sublist
    rw [hsame] at hremoved
    exact hrest.trans hremoved

/-- The steps towards a chain keep the order. -/
theorem kept_increasing (params : NodeParams) : Kept params (Increasing (B := B) params) where
  attempted _ hnode := hnode
  disconnected hnode _ _ := hnode
  connected {node block} hnode _ _ := by
    unfold raiseValidity
    split
    · exact hnode
    · exact hnode
  marked block hnode := Increasing.erase hnode block
  pruned hnode hnext := hnode.prune hnext

/-- What happens to the fields of a block leaves it, if it is a candidate, on its side of every
other candidate. -/
def Stays (params : NodeParams) (node next : Node B) (block : B) : Prop :=
  OrderedSet.Stays (node.less params) (next.less params) node.candidates block

instance (next : Node B) (block : B) : Decidable (Stays params node next block) :=
  inferInstanceAs (Decidable (block ∈ node.candidates → ∀ other ∈ node.candidates, _))

theorem increasing_iff_stays {block : B} (hnode : node.Increasing params)
    (hcandidates : next.candidates = node.candidates)
    (hkeys : ∀ other, other ≠ block → next.keys other = node.keys other) :
    next.Increasing params ↔ Stays params node next block := by
  unfold Increasing
  rw [hcandidates]
  exact OrderedSet.sorted_rewritten_iff (strict_less params node) (strict_less params next) hnode
    fun hfirst hsecond => less_of_keys (hkeys _ hfirst) (hkeys _ hsecond)

theorem keys_setMining {block other : B} (canMine : ℕ) (heightMinedByMe : ℤ)
    (hother : other ≠ block) :
    (node.setMining block canMine heightMinedByMe).keys other = node.keys other := by
  unfold keys setMining
  dsimp only
  rw [Function.update_of_ne hother, Function.update_of_ne hother]

theorem keys_updateChainMiningStatus {signer : Signer} {block other : B} (hother : other ≠ block) :
    (node.updateChainMiningStatus params signer block).keys other = node.keys other := by
  unfold updateChainMiningStatus
  split
  · exact keys_setMining _ _ hother
  rfl

theorem keys_linkBlock {block other : B} (hother : other ≠ block) :
    (node.linkBlock block).keys other = node.keys other := by
  unfold keys linkBlock
  dsimp only
  rw [Function.update_of_ne hother]

theorem setMining_setMining (block : B) (canMine other : ℕ) (height last : ℤ) :
    (node.setMining block canMine height).setMining block other last =
      node.setMining block other last := by
  unfold setMining
  rw [Function.update_idem, Function.update_idem]

theorem refreshTip_of_some {tip : B} (htip : node.tip = some tip) (mine : Bool) :
    ∃ canMine height, node.refreshTip mine = node.setMining tip canMine height := by
  unfold refreshTip
  rw [htip]
  exact ⟨_, _, rfl⟩

theorem refreshTip_of_none (htip : node.tip = none) (mine : Bool) : node.refreshTip mine = node := by
  unfold refreshTip
  rw [htip]

/-- Only the tip's fields change before a chain is chosen. -/
theorem refreshBefore_eq (params : NodeParams) (node : Node B) (mine : Bool) :
    node.refreshBefore params mine = node ∨ ∃ tip canMine height, node.tip = some tip ∧
      node.refreshBefore params mine = node.setMining tip canMine height := by
  unfold refreshBefore
  split
  · cases htip : node.tip with
    | none =>
      rw [refreshTip_of_none htip]
      unfold inheritHeight
      rw [htip]
      exact .inl rfl
    | some tip =>
      obtain ⟨canMine, height, hrefresh⟩ := refreshTip_of_some htip mine
      have hset : (node.setMining tip canMine height).tip = some tip := htip
      rw [hrefresh]
      unfold inheritHeight
      rw [hset]
      dsimp only
      split
      · exact .inr ⟨tip, _, _, rfl, rfl⟩
      split
      · rw [setMining_setMining]
        exact .inr ⟨tip, _, _, rfl, rfl⟩
      · exact .inr ⟨tip, _, _, rfl, rfl⟩
  exact .inl rfl

theorem Increasing.setMining {tip : B} (hnode : node.Increasing params) (canMine : ℕ) (height : ℤ)
    (hstays : Stays params node (node.setMining tip canMine height) tip) :
    (node.setMining tip canMine height).Increasing params := by
  have hsame : (node.setMining tip canMine height).candidates = node.candidates := rfl
  exact (increasing_iff_stays hnode hsame fun _ hother => keys_setMining _ _ hother).mpr hstays

theorem Increasing.refreshBefore {mine : Bool} (hnode : node.Increasing params)
    (hstays : ∀ tip ∈ node.tip, Stays params node (node.refreshBefore params mine) tip) :
    (node.refreshBefore params mine).Increasing params := by
  obtain hsame | ⟨tip, canMine, height, htip, hset⟩ := refreshBefore_eq params node mine
  · rw [hsame]
    exact hnode
  have htipStays := hstays tip htip
  rw [hset] at htipStays ⊢
  exact hnode.setMining canMine height htipStays

theorem Increasing.refreshTip {mine : Bool} (hnode : node.Increasing params)
    (hstays : ∀ tip ∈ node.tip, Stays params node (node.refreshTip mine) tip) :
    (node.refreshTip mine).Increasing params := by
  cases htip : node.tip with
  | none =>
    rw [refreshTip_of_none htip]
    exact hnode
  | some tip =>
    obtain ⟨canMine, height, hset⟩ := refreshTip_of_some htip mine
    have htipStays := hstays tip htip
    rw [hset] at htipStays ⊢
    exact hnode.setMining canMine height htipStays

/-- `ReceivedBlockTransactions` leaves the blocks of its queue in their places when they get
their sequence ids. -/
def LinksStay (params : NodeParams) : ℕ → List B → Node B → Prop
  | 0, _, _ => True
  | _ + 1, [], _ => True
  | rounds + 1, block :: queue, node => Stays params node (node.linkBlock block) block ∧
      LinksStay params rounds
        (queue ++ ((node.linkBlock block).insertCandidate params block).waiting block)
        (((node.linkBlock block).insertCandidate params block).forgetWaiting block)

/-- A round of `ActivateBestChain` leaves the tip in its place when it sets `nCanMine` and
`nHeightMinedByMe` by the wallet, before it chooses and after the step. -/
def RoundStays (params : NodeParams) (round : Round B) (node : Node B) : Prop :=
  (∀ tip ∈ node.tip, Stays params node (node.refreshBefore params round.mineBefore) tip) ∧
    ∀ found ∈ node.afterStep params round,
      Stays params found.2 (found.2.refreshTip round.mineAfter) found.1

def RoundsStay (params : NodeParams) : List (Round B) → Node B → Prop
  | [], _ => True
  | round :: rounds, node => RoundStays params round node ∧
      match node.activateRound params round with
      | .again next => RoundsStay params rounds next
      | _ => True

instance decidableLinksStay :
    ∀ (rounds : ℕ) (queue : List B) (node : Node B), Decidable (LinksStay params rounds queue node)
  | 0, _, _ => .isTrue trivial
  | _ + 1, [], _ => .isTrue trivial
  | rounds + 1, block :: queue, node =>
    have := decidableLinksStay rounds
      (queue ++ ((node.linkBlock block).insertCandidate params block).waiting block)
      (((node.linkBlock block).insertCandidate params block).forgetWaiting block)
    inferInstanceAs (Decidable (_ ∧ _))

instance (round : Round B) (node : Node B) : Decidable (RoundStays params round node) :=
  inferInstanceAs (Decidable (_ ∧ _))

instance decidableRoundsStay :
    ∀ (rounds : List (Round B)) (node : Node B), Decidable (RoundsStay params rounds node)
  | [], _ => .isTrue trivial
  | round :: rounds, node =>
    have : Decidable (match node.activateRound params round with
        | .again next => RoundsStay params rounds next
        | _ => True) :=
      match node.activateRound params round with
      | .again next => decidableRoundsStay rounds next
      | .done _ => .isTrue trivial
      | .choosing => .isTrue trivial
    inferInstanceAs (Decidable (_ ∧ _))

theorem Increasing.linkQueue {rounds : ℕ} :
    ∀ {queue : List B} {node : Node B}, node.Increasing params →
      LinksStay params rounds queue node →
      (Node.linkQueue params rounds queue node).Increasing params := by
  induction rounds with
  | zero => exact fun hnode _ => hnode
  | succ rounds ih =>
    intro queue node hnode hstay
    cases queue with
    | nil => exact hnode
    | cons block queue =>
      have hsame : (node.linkBlock block).candidates = node.candidates := rfl
      have hlinked : (node.linkBlock block).Increasing params :=
        (increasing_iff_stays hnode hsame fun _ hother => keys_linkBlock hother).mpr hstay.1
      exact ih (hlinked.insert block) hstay.2

theorem Increasing.round {round : Round B} (hnode : node.Increasing params)
    (hstays : RoundStays params round node) :
    (node.activateRound params round).All (Increasing params) := by
  refine activateRound_all (fun hfound => ?_) ?_
  · have hstart := (hnode.refreshBefore hstays.1).sublist (findMostWorkChain_sublist hfound)
    exact ⟨hstart, fun chosen _ _ => (kept_increasing params).step round.validation chosen hstart⟩
  intro chosen next hafter htip hnext
  refine hnext.refreshTip fun tip hmem => ?_
  rw [htip] at hmem
  cases hmem
  exact hstays.2 (chosen, next) hafter

theorem Increasing.rounds {rounds : List (Round B)} (hnode : node.Increasing params)
    (hstay : RoundsStay params rounds node) :
    (activateBestChain params rounds node).All (Increasing params) := by
  refine activateBestChain_all (fun hgood hnode => ⟨hnode.round hgood.1, ?_⟩) rounds hstay hnode
  intro next hresult
  have hrest := hgood.2
  rwa [hresult] at hrest

end Amberchain.BestChain.Node
