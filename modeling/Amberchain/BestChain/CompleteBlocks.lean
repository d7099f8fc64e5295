import Amberchain.BestChain.Complete
import Amberchain.BestChain.OrderedRuns

/-!
# Arriving blocks keep the candidates complete

A block that arrives, and what has waited for it, is inserted when it is linked.
-/

namespace Amberchain.BestChain.Node

open BlockTree

variable {B : Type} [LinearOrder B] {params : NodeParams} {node next : Node B}
  {old : Option B} {block other : B}

theorem Fine.insert (hnode : Fine params old node) (hlinked : node.tree.chainTx block ≠ 0) :
    Fine params old (node.insertCandidate params block) := by
  have hmem : ∀ other, other ∈ (node.insertCandidate params block).candidates ↔
      other = block ∨ other ∈ node.candidates := fun other =>
    OrderedSet.mem_insert (strict_less params node) block node.candidates
  constructor
  · refine hnode.linked.same ⟨rfl, rfl, rfl, rfl, rfl, rfl, rfl, rfl, fun _ => Nat.le_refl _⟩
      (fun other hother => ?_) hnode.linked.tip
    cases (hmem other).mp hother with
    | inl heq =>
      rw [heq]
      exact hlinked
    | inr hin => exact hnode.linked.members other hin
  intro other hbelongs hbetter hold
  exact (hmem other).mpr (.inr (hnode.complete other
    ⟨hbelongs.valid, hbelongs.linked, hbelongs.allowed⟩ hbetter hold))

theorem Fine.raiseValidity (hnode : Fine params old node) (upTo : ℕ) (block : B) :
    Fine params old (node.raiseValidity upTo block) := by
  obtain ⟨validity, hraise, hvalid⟩ := @raiseValidity_eq B _ node upTo block
  rw [hraise]
  constructor
  · exact hnode.linked.same ⟨rfl, rfl, rfl, rfl, rfl, rfl, rfl, rfl, hvalid⟩
      hnode.linked.members hnode.linked.tip
  intro other hbelongs hbetter hold
  exact hnode.complete other ⟨hbelongs.valid, hbelongs.linked, hbelongs.allowed⟩ hbetter hold

theorem Fine.indexed (hnode : Fine params old node) (block : B) :
    Fine params old { node with index := node.index ++ [block] } := by
  obtain ⟨⟨hgrows, hclosed, hdata, hvalid, hknown, hmembers, htip, hwaits⟩, hcomplete⟩ := hnode
  refine ⟨⟨hgrows, hclosed, hdata, hvalid, fun hlinked => List.mem_append_left _ (hknown hlinked),
    hmembers, htip, fun entry hentry => ?_⟩, fun other hbelongs hbetter hold => ?_⟩
  · obtain ⟨hparent, hhave, hin, hcounted, hunlinked⟩ := hwaits entry hentry
    exact ⟨hparent, hhave, List.mem_append_left _ hin, hcounted, hunlinked⟩
  exact hcomplete other ⟨hbelongs.valid, hbelongs.linked, hbelongs.allowed⟩ hbetter hold

theorem Fine.acceptBlockHeader (hnode : Fine params none node) (block : B) :
    Fine params none (node.acceptBlockHeader block) := by
  have hadded : Fine params none (node.addToBlockIndex block) := by
    unfold addToBlockIndex
    split
    · exact hnode
    · exact (hnode.indexed block).raiseValidity _ _
  unfold Node.acceptBlockHeader
  split
  · exact hadded
  split
  · exact hnode
  exact hadded

theorem Fine.markFailedValid (hnode : Fine params old node) (block : B) :
    Fine params old (node.markFailedValid block) := by
  constructor
  · exact hnode.linked.same ⟨rfl, rfl, rfl, rfl, rfl, rfl, rfl, rfl, fun _ => Nat.le_refl _⟩
      hnode.linked.members hnode.linked.tip
  intro other hbelongs hbetter hold
  exact hnode.complete other
    ⟨(not_failed_of_marked hbelongs.valid).2, hbelongs.linked, hbelongs.allowed⟩ hbetter hold

/-- Checking miners changes neither the candidates nor the marks. -/
theorem Fine.verified (hnode : Fine params old node) (env : ChainEnv B) (block : B) :
    Fine params old { node with selection := (env.verifyBlockMiner node.selection block).2 } := by
  have hsame : (env.verifyBlockMiner node.selection block).2.candidates = node.selection.candidates ∧
      ∀ other, (env.verifyBlockMiner node.selection block).2.failed other =
        node.selection.failed other := by
    unfold ChainEnv.verifyBlockMiner
    split
    · exact ⟨rfl, fun _ => rfl⟩
    · exact ⟨rfl, fun _ => rfl⟩
  obtain ⟨hcandidates, hfailed⟩ := hsame
  constructor
  · refine hnode.linked.same ⟨rfl, rfl, rfl, rfl, rfl, rfl, rfl, rfl, fun _ => Nat.le_refl _⟩
      (fun other hother => ?_) hnode.linked.tip
    change other ∈ (env.verifyBlockMiner node.selection block).2.candidates at hother
    rw [hcandidates] at hother
    exact hnode.linked.members other hother
  intro other hbelongs hbetter hold
  change other ∈ (env.verifyBlockMiner node.selection block).2.candidates
  rw [hcandidates]
  exact hnode.complete other
    ⟨(hfailed other).symm.trans hbelongs.valid, hbelongs.linked, hbelongs.allowed⟩ hbetter hold

structure Linkable (node : Node B) (block : B) : Prop where
  data : node.tree.haveData block = true
  known : block ∈ node.index
  counted : node.txCount block ≠ 0
  parent : ∀ {parent : B}, node.tree.pprev block = some parent → node.tree.chainTx parent ≠ 0
  tip : node.tip ≠ some block
  taken : ∀ entry ∈ node.unlinked, entry.2 ≠ block

theorem chainTx_linkBlock (block other : B) : (node.linkBlock block).tree.chainTx other =
      if other = block then node.parentChainTx block + node.txCount block
      else node.tree.chainTx other := by
  unfold linkBlock
  dsimp only
  by_cases hsame : other = block
  · rw [if_pos hsame, hsame, Function.update_self]
  rw [if_neg hsame, Function.update_of_ne hsame]

theorem chainTx_of_linked (hcounted : node.txCount block ≠ 0) (hlinked : node.tree.chainTx other ≠ 0) :
    (node.linkBlock block).tree.chainTx other ≠ 0 := by
  rw [chainTx_linkBlock]
  split
  · omega
  exact hlinked

/-- One block of the queue. -/
theorem Fine.link (hnode : Fine params none node) (hblock : Linkable node block) :
    Fine params none ((node.linkBlock block).insertCandidate params block) := by
  have hlinked : (node.linkBlock block).tree.chainTx block ≠ 0 := by
    have hcounted := hblock.counted
    rw [chainTx_linkBlock, if_pos rfl]
    omega
  have hmem : ∀ other, other ∈ ((node.linkBlock block).insertCandidate params block).candidates ↔
      other = block ∨ other ∈ node.candidates := fun other =>
    OrderedSet.mem_insert (strict_less params (node.linkBlock block)) block node.candidates
  have hback : ∀ {other : B}, other ≠ block → (node.linkBlock block).tree.chainTx other ≠ 0 →
      node.tree.chainTx other ≠ 0 := by
    intro other hne hother
    rw [chainTx_linkBlock, if_neg hne] at hother
    exact hother
  constructor
  · exact {
      grows := hnode.linked.grows
      closed := by
        intro other parent hother hparent
        by_cases hsame : other = block
        · rw [hsame] at hparent
          exact chainTx_of_linked hblock.counted (hblock.parent hparent)
        · exact chainTx_of_linked hblock.counted (hnode.linked.closed (hback hsame hother) hparent)
      data := by
        intro other hother
        by_cases hsame : other = block
        · rw [hsame]
          exact hblock.data
        · exact hnode.linked.data (hback hsame hother)
      valid := hnode.linked.valid
      known := by
        intro other hother
        by_cases hsame : other = block
        · rw [hsame]
          exact hblock.known
        · exact hnode.linked.known (hback hsame hother)
      members := by
        intro other hother
        cases (hmem other).mp hother with
        | inl heq =>
          rw [heq]
          exact hlinked
        | inr hin => exact chainTx_of_linked hblock.counted (hnode.linked.members other hin)
      tip := fun tip htip => chainTx_of_linked hblock.counted (hnode.linked.tip tip htip)
      waits := by
        intro entry hentry
        obtain ⟨hparent, hdata, hknown, hcounted, hunlinked⟩ := hnode.linked.waits entry hentry
        refine ⟨hparent, hdata, hknown, hcounted, ?_⟩
        change (node.linkBlock block).tree.chainTx entry.2 = 0
        rw [chainTx_linkBlock, if_neg (hblock.taken entry hentry)]
        exact hunlinked }
  intro other hbelongs hbetter _
  refine (hmem other).mpr ?_
  by_cases hsame : other = block
  · exact .inl hsame
  refine .inr (hnode.complete other ⟨hbelongs.valid, hback hsame hbelongs.linked,
    fun hbanned => ?_⟩ (fun top htop => ?_) nofun)
  · have hnext : (node.linkBlock block).contains other = true := hbelongs.allowed hbanned
    exact @contains_of_pprev B _ node other (node.linkBlock block) rfl rfl hnext
  have hless : (node.linkBlock block).less params other top = false := hbetter top htop
  have hne : top ≠ block := by
    intro heq
    rw [heq] at htop
    exact hblock.tip htop
  rw [less_of_keys (keys_linkBlock hsame) (keys_linkBlock hne)] at hless
  exact hless

theorem Fine.forgetWaiting (hnode : Fine params old node) (block : B) :
    Fine params old (node.forgetWaiting block) := by
  obtain ⟨⟨hgrows, hclosed, hdata, hvalid, hknown, hmembers, htip, hwaits⟩, hcomplete⟩ := hnode
  refine ⟨⟨hgrows, hclosed, hdata, hvalid, hknown, hmembers, htip, fun entry hentry => ?_⟩,
    fun other hbelongs hbetter hold => ?_⟩
  · obtain ⟨hparent, hhave, hin, hcounted, hunlinked⟩ := hwaits entry (List.mem_filter.mp hentry).1
    exact ⟨hparent, hhave, hin, hcounted, hunlinked⟩
  exact hcomplete other ⟨hbelongs.valid, hbelongs.linked, hbelongs.allowed⟩ hbetter hold

/-- The queue of `ReceivedBlockTransactions`. -/
theorem Fine.linkQueue {rounds : ℕ} : ∀ {queue : List B} {node : Node B}, Fine params none node →
      (∀ block ∈ queue, Linkable node block) →
      Fine params none (linkQueue params rounds queue node) := by
  induction rounds with
  | zero => exact fun hnode _ => hnode
  | succ rounds ih =>
    intro queue node hnode hqueue
    cases queue with
    | nil => exact hnode
    | cons block queue =>
      have hblock := hqueue block (.head _)
      have hlinked : (node.linkBlock block).tree.chainTx block ≠ 0 := by
        have hcounted := hblock.counted
        rw [chainTx_linkBlock, if_pos rfl]
        omega
      refine ih ((hnode.link hblock).forgetWaiting block) fun other hother => ?_
      cases List.mem_append.mp hother with
      | inl hin =>
        obtain ⟨hdata, hknown, hcounted, hparent, htip, htaken⟩ :=
          hqueue other (.tail _ hin)
        exact {
          data := hdata
          known := hknown
          counted := hcounted
          parent := fun hstep => chainTx_of_linked hblock.counted (hparent hstep)
          tip := htip
          taken := fun entry hentry => htaken entry (List.mem_filter.mp hentry).1 }
      | inr hin =>
        obtain ⟨entry, hentry, rfl⟩ := List.mem_map.mp hin
        obtain ⟨hmem, heq⟩ := List.mem_filter.mp hentry
        have hstart : entry.1 = block := of_decide_eq_true heq
        obtain ⟨hparent, hdata, hknown, hcounted, hunlinked⟩ := hnode.linked.waits entry hmem
        exact {
          data := hdata
          known := hknown
          counted := hcounted
          parent := by
            intro parent hstep
            change node.tree.pprev entry.2 = some parent at hstep
            rw [hparent, hstart] at hstep
            cases hstep
            exact hlinked
          tip := by
            intro htip
            exact hnode.linked.tip entry.2 htip hunlinked
          taken := by
            intro last hlast heqLast
            obtain ⟨hin, hne⟩ := List.mem_filter.mp hlast
            have hlastParent := (hnode.linked.waits last hin).parent
            rw [heqLast, hparent] at hlastParent
            have hsame : last.1 = block := (Option.some.inj hlastParent).symm.trans hstart
            exact of_decide_eq_true hne hsame }

structure Stored (node next : Node B) (block : B) (txCount : ℕ) : Prop where
  pprev : next.tree.pprev = node.tree.pprev
  height : next.tree.height = node.tree.height
  chainWork : next.tree.chainWork = node.tree.chainWork
  chainTx : next.tree.chainTx = Function.update node.tree.chainTx block 0
  haveData : next.tree.haveData = Function.update node.tree.haveData block true
  txCount : next.txCount = Function.update node.txCount block txCount
  selection : next.selection = node.selection
  index : next.index = node.index
  tip : next.tip = node.tip
  banned : next.banned = node.banned
  unlinked : next.unlinked = node.unlinked
  kept : ∀ other, node.validity other ≤ next.validity other
  valid : node.selection.failed block = false → BLOCK_VALID_TRANSACTIONS ≤ next.validity block

theorem stored_storeBlock (signer : Signer) (txCount : ℕ) (block : B) :
    Stored node (node.storeBlock params signer txCount block) block txCount := by
  unfold storeBlock
  generalize hreceived : ({ node with
    tree := { node.tree with
      haveData := Function.update node.tree.haveData block true
      chainTx := Function.update node.tree.chainTx block 0 }
    txCount := Function.update node.txCount block txCount } : Node B) = received
  have hraised : Stored node (received.raiseValidity BLOCK_VALID_TRANSACTIONS block) block
      txCount := by
    unfold Node.raiseValidity
    rw [← hreceived]
    split
    · rename_i hfailed
      refine ⟨rfl, rfl, rfl, rfl, rfl, rfl, rfl, rfl, rfl, rfl, rfl, fun _ => Nat.le_refl _,
        fun hright => ?_⟩
      exact absurd (hright.symm.trans hfailed) Bool.false_ne_true
    refine ⟨rfl, rfl, rfl, rfl, rfl, rfl, rfl, rfl, rfl, rfl, rfl, fun other => ?_, fun _ => ?_⟩
    · dsimp only
      by_cases hsame : other = block
      · rw [hsame, Function.update_self]
        exact Nat.le_max_left _ _
      · rw [Function.update_of_ne hsame]
    dsimp only
    rw [Function.update_self]
    exact Nat.le_max_right _ _
  unfold updateChainMiningStatus
  split
  · obtain ⟨hpprev, hheight, hwork, htx, hdata, hcount, hselection, hindex, htip, hbanned, hunlinked,
      hkept, hvalid⟩ := hraised
    exact ⟨hpprev, hheight, hwork, htx, hdata, hcount, hselection, hindex, htip, hbanned, hunlinked,
      hkept, hvalid⟩
  exact hraised

/-- A new block has no data yet, and is not linked. -/
theorem Fine.storeBlock {signer : Signer} {txCount : ℕ} (hnode : Fine params none node)
    (hdata : node.tree.haveData block = false) (hfailed : node.selection.failed block = false) :
    Fine params none (node.storeBlock params signer txCount block) := by
  have hstored := @stored_storeBlock B _ params node signer txCount block
  have hunlinked : node.tree.chainTx block = 0 := by
    by_contra hlinked
    exact absurd (hdata.symm.trans (hnode.linked.data hlinked)) Bool.false_ne_true
  have hchainTx : (node.storeBlock params signer txCount block).tree.chainTx = node.tree.chainTx := by
    rw [hstored.chainTx, ← hunlinked, Function.update_eq_self]
  have hcandidates : (node.storeBlock params signer txCount block).candidates = node.candidates := by
    unfold Node.candidates
    rw [hstored.selection]
  constructor
  · exact {
      grows := by
        unfold WorkGrows
        rw [hstored.pprev, hstored.chainWork]
        exact hnode.linked.grows
      closed := by
        rw [hchainTx, hstored.pprev]
        exact hnode.linked.closed
      data := by
        intro other hother
        rw [hchainTx] at hother
        rw [hstored.haveData]
        by_cases hsame : other = block
        · rw [hsame, Function.update_self]
        rw [Function.update_of_ne hsame]
        exact hnode.linked.data hother
      valid := by
        intro other hother
        by_cases hsame : other = block
        · rw [hsame]
          exact hstored.valid hfailed
        rw [hstored.haveData, Function.update_of_ne hsame] at hother
        exact Nat.le_trans (hnode.linked.valid hother) (hstored.kept other)
      known := by
        rw [hchainTx, hstored.index]
        exact hnode.linked.known
      members := by
        rw [hchainTx, hcandidates]
        exact hnode.linked.members
      tip := by
        rw [hchainTx, hstored.tip]
        exact hnode.linked.tip
      waits := by
        rw [hstored.unlinked]
        intro entry hentry
        obtain ⟨hparent, hhave, hknown, hcounted, hlater⟩ := hnode.linked.waits entry hentry
        have hne : entry.2 ≠ block := by
          intro heq
          rw [heq, hdata] at hhave
          cases hhave
        exact {
          parent := by rw [hstored.pprev]; exact hparent
          data := by rw [hstored.haveData, Function.update_of_ne hne]; exact hhave
          known := by rw [hstored.index]; exact hknown
          counted := by rw [hstored.txCount, Function.update_of_ne hne]; exact hcounted
          unlinked := by rw [hchainTx]; exact hlater } }
  · intro other hbelongs hbetter _
    have hlinked := hbelongs.linked
    rw [hchainTx] at hlinked
    have hne : ∀ {last : B}, node.tree.chainTx last ≠ 0 → last ≠ block := by
      intro last hlast heq
      rw [heq] at hlast
      exact hlast hunlinked
    rw [hcandidates]
    refine hnode.complete other ⟨?_, hlinked, fun hbanned => ?_⟩ (fun top htop => ?_) nofun
    · rw [← hstored.selection]
      exact hbelongs.valid
    · have hactive := hbelongs.allowed (by rw [hstored.banned]; exact hbanned)
      exact contains_of_pprev hstored.pprev hstored.tip hactive
    have hless := hbetter top (by rw [hstored.tip]; exact htop)
    rw [less_of_keys (keys_storeBlock (hne hlinked))
      (keys_storeBlock (hne (hnode.linked.tip top htop)))] at hless
    exact hless

theorem Fine.receivedBlockTransactions {signer : Signer} {txCount : ℕ} (hcount : txCount ≠ 0)
    (hnode : Fine params none node) (hknown : block ∈ node.index)
    (hdata : node.tree.haveData block = false) (hfailed : node.selection.failed block = false) :
    Fine params none (node.receivedBlockTransactions params signer txCount block) := by
  have hstored := @stored_storeBlock B _ params node signer txCount block
  have hfine := @Fine.storeBlock B _ params node block signer txCount hnode hdata hfailed
  have hunlinked : node.tree.chainTx block = 0 := by
    by_contra hlinked
    exact absurd (hdata.symm.trans (hnode.linked.data hlinked)) Bool.false_ne_true
  have hcounted : (node.storeBlock params signer txCount block).txCount block ≠ 0 := by
    rw [hstored.txCount, Function.update_self]
    exact hcount
  have hhave : (node.storeBlock params signer txCount block).tree.haveData block = true := by
    rw [hstored.haveData, Function.update_self]
  have hin : block ∈ (node.storeBlock params signer txCount block).index := by
    rw [hstored.index]
    exact hknown
  unfold Node.receivedBlockTransactions
  dsimp only
  split
  · rename_i hparent
    refine hfine.linkQueue fun other hother => ?_
    rw [List.mem_singleton.mp hother]
    exact {
      data := hhave
      known := hin
      counted := hcounted
      parent := by
        intro parent hstep
        unfold parentLinked at hparent
        rw [hstep] at hparent
        exact of_decide_eq_true hparent
      tip := by
        rw [hstored.tip]
        intro htip
        exact hnode.linked.tip block htip hunlinked
      taken := by
        rw [hstored.unlinked]
        intro entry hentry heq
        have hentryData := (hnode.linked.waits entry hentry).data
        rw [heq, hdata] at hentryData
        cases hentryData }
  unfold setWaiting
  split
  · exact hfine
  rename_i parent hstep
  split
  · obtain ⟨⟨hgrows, hclosed, hdata', hvalid, hknown', hmembers, htip, hwaits⟩, hcomplete⟩ := hfine
    refine ⟨⟨hgrows, hclosed, hdata', hvalid, hknown', hmembers, htip, fun entry hentry => ?_⟩,
      fun other hbelongs hbetter hold => ?_⟩
    · cases List.mem_append.mp hentry with
      | inl hbefore =>
        obtain ⟨hentryParent, hentryData, hentryKnown, hentryCounted, hentryLater⟩ :=
          hwaits entry hbefore
        exact ⟨hentryParent, hentryData, hentryKnown, hentryCounted, hentryLater⟩
      | inr hlast =>
        rw [List.mem_singleton.mp hlast]
        refine ⟨hstep, hhave, hin, hcounted, ?_⟩
        rw [hstored.chainTx, Function.update_self]
    · exact hcomplete other ⟨hbelongs.valid, hbelongs.linked, hbelongs.allowed⟩ hbetter hold
  exact hfine

theorem Fine.acceptBlock {signer : Signer} {txCount : ℕ} {hasBannedTx : Bool}
    {verify : Selection B → B → Bool × (B → Bool)} (hnode : Fine params none node) (block : B) :
    Fine params none (node.acceptBlock params signer txCount hasBannedTx verify block) := by
  unfold Node.acceptBlock
  split
  · exact hnode
  rename_i hcount
  split
  · split
    · exact hnode
    constructor
    · exact hnode.linked.same
        ⟨rfl, rfl, rfl, rfl, rfl, rfl, rfl, rfl, fun _ => Nat.le_refl _⟩
        hnode.linked.members hnode.linked.tip
    intro other hbelongs hbetter hold
    exact hnode.complete other ⟨hbelongs.valid, hbelongs.linked, fun hbanned =>
      hbelongs.allowed (List.mem_append_left _ hbanned)⟩ hbetter hold
  split
  · exact hnode
  rename_i hwanted
  obtain ⟨hknown, hfailed, -, hdata⟩ := of_decide_eq_true (not_not.mp hwanted)
  have hreceived := @Fine.receivedBlockTransactions B _ params node block signer txCount hcount
    hnode hknown (Bool.eq_false_iff.mpr hdata) (Bool.eq_false_iff.mpr hfailed)
  have hverified := hreceived.verified
    ((node.receivedBlockTransactions params signer txCount block).env params verify) block
  dsimp only
  split
  · exact hverified
  exact hverified.markFailedValid block

end Amberchain.BestChain.Node
