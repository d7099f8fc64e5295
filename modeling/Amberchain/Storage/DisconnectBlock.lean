import Amberchain.Storage.ConnectSpec

/-!
# Taking a block back

With the undo data of `ConnectBlock`, `DisconnectBlock` finds nothing wrong and leaves
the coins and the best block of the view before, unless a transaction was put over
coins that were there.
-/

namespace Amberchain.Storage

open Transaction CoinsStack

namespace Coins

variable {coins left : Coins} {n : ℕ} {undo : TxInUndo}

theorem Spent.live_putOut (hspent : Spent coins n left undo) (hcleared : Cleared coins.vout)
    {found : LiveCoins} (hfound : found.coins = coins) :
    ({ coins with vout := putOut left.vout n undo.txout } : Coins).live = some found := by
  have hclean : coins.cleanup = coins := hfound ▸ found.clean
  have hcleanup : cleanup { coins with vout := putOut left.vout n undo.txout } = coins := by
    unfold cleanup
    rw [hspent.putOut_left hcleared hclean]
  rw [← live_cleanup, hcleanup, ← hfound]
  exact found.live_coins

theorem Spent.not_available (hspent : Spent coins n left undo) (hcleared : Cleared coins.vout) :
    left.isAvailable n = false := by
  have hout := hspent.outAt_left hcleared n
  rw [if_pos rfl] at hout
  unfold outAt at hout
  unfold isAvailable
  cases hget : left.vout[n]? with
  | none => rfl
  | some out =>
    rw [hget] at hout
    change out = nullOut at hout
    rw [hout]
    rfl

variable {outs outsBlock : Coins}

theorem same_of_eq (heq : outs = outsBlock) :
    (if outsBlock.version < 0 then { outs with version := outsBlock.version } else outs).same
      outsBlock = true := by
  unfold same
  rw [heq, decide_eq_true_iff]
  refine .inr ?_
  split <;> rfl

theorem same_of_pruned (houts : outs.isPruned = true) (hblock : outsBlock.isPruned = true) :
    (if outsBlock.version < 0 then { outs with version := outsBlock.version } else outs).same
      outsBlock = true := by
  unfold same
  rw [decide_eq_true_iff]
  refine .inl ⟨?_, hblock⟩
  split <;> exact houts

end Coins

theorem TxInUndo.stored_eq {undo : TxInUndo} (hversion : 0 ≤ undo.version) :
    undo.stored = undo := by
  unfold TxInUndo.stored
  rw [if_neg (Int.not_lt.mpr hversion)]

namespace IsView

variable {view next : CoinsStack} {coinsOf after : CoinsOf} {hashBlock : Hash256}
  {env : ConnectEnv} {index : BlockIndex}

/-- The stored undo data of an input brings its output back. -/
theorem restoreInput {prevout : OutPoint} {undo : TxInUndo}
    (hview : IsView view after hashBlock) (hsound : coinsOf.Sound)
    (hkept : ∀ found, coinsOf prevout.hash = some found → 0 ≤ found.coins.version)
    (hspend : coinsOf.spendOut prevout = some (after, undo)) :
    (view.restoreInput prevout undo.stored).2 = true ∧
      IsView (view.restoreInput prevout undo.stored).1 coinsOf hashBlock := by
  obtain ⟨found, left, hfound, hspent, rfl⟩ := CoinsOf.spendOut_spec hspend
  obtain ⟨hcleared, hheight⟩ := hsound _ found hfound
  have hlive : (({ found.coins with
      vout := putOut left.vout prevout.n undo.txout } : Coins)).live = some found :=
    hspent.live_putOut hcleared rfl
  have hback : Function.update (Function.update coinsOf prevout.hash left.live) prevout.hash
      (some found) = coinsOf := by
    rw [Function.update_idem, ← hfound, Function.update_eq_self]
  have hleftOf := Function.update_self prevout.hash left.live coinsOf
  by_cases hlast : left.vout = []
  · -- the last output: the undo data holds the rest of the coins
    have hundo := hspent.last hlast
    have hstored : undo.stored = undo :=
      TxInUndo.stored_eq (by rw [hundo]; exact hkept found hfound)
    have hundoHeight : undo.height = found.coins.height := by rw [hundo]
    have hpruned : (view.coinsToModify prevout.hash).isPruned = true := by
      refine hview.isPruned_coinsToModify (hleftOf.trans (Coins.live_of_pruned ?_))
      rw [Coins.isPruned, hlast]
      rfl
    unfold CoinsStack.restoreInput
    dsimp only
    rw [hstored, if_pos (hundoHeight ▸ hheight), if_pos (hundoHeight ▸ hheight)]
    refine ⟨?_, ?_⟩
    · rw [hpruned]
      rfl
    have hnext := hview.modifyCoins prevout.hash
      ⟨undo.coinBase, putOut [] prevout.n undo.txout, undo.height, undo.version⟩
    rw [hlast] at hlive
    have hcoins : (⟨undo.coinBase, putOut [] prevout.n undo.txout, undo.height, undo.version⟩ :
        Coins) = { found.coins with vout := putOut [] prevout.n undo.txout } := by
      rw [hundo]
    rw [hcoins, hlive, hback] at hnext
    rw [hcoins]
    exact hnext
  -- there are other outputs left
  have hundoHeight : undo.stored.height = 0 := hspent.more hlast
  have hleftClean : left.cleanup = left := by
    rw [hspent.rest]
    exact congrArg (fun vout => ({ found.coins with vout } : Coins))
      (List.rdropWhile_idempotent ..)
  have hunpruned : left.isPruned = false :=
    Bool.eq_false_iff.mpr fun hpruned => hlast ((Coins.vout_eq_nil_iff hleftClean).mpr hpruned)
  obtain ⟨other, hother⟩ : ∃ other, left.live = some other := by
    cases hcase : left.live with
    | none =>
      rw [Coins.live_eq_none_iff, hunpruned] at hcase
      cases hcase
    | some other => exact ⟨other, rfl⟩
  have hmodify : view.coinsToModify prevout.hash = left := by
    rw [hview.coinsToModify_of_live (hleftOf.trans hother)]
    exact Coins.live_eq_some hleftClean hother
  unfold CoinsStack.restoreInput
  dsimp only
  rw [if_neg (not_not_intro hundoHeight), if_neg (not_not_intro hundoHeight), hmodify]
  refine ⟨?_, ?_⟩
  · rw [hunpruned, hspent.not_available hcleared]
    rfl
  have hnext := hview.modifyCoins prevout.hash
    { left with vout := putOut left.vout prevout.n undo.stored.txout }
  have hcoins : ({ left with vout := putOut left.vout prevout.n undo.stored.txout } : Coins) =
      { found.coins with vout := putOut left.vout prevout.n undo.txout } := by
    rw [hspent.rest]
    rfl
  rw [hcoins, hlive, hback] at hnext
  rw [hcoins]
  exact hnext

theorem restoreInputs {inputs : List TxIn} {undos : TxUndo}
    (hview : IsView view after hashBlock) (hsound : coinsOf.Sound)
    (hkept : CoinsOf.VersionsKept inputs coinsOf)
    (hspend : CoinsOf.spendAll inputs coinsOf = some (after, undos)) :
    undos.length = inputs.length ∧
      (CoinsStack.restoreInputs (inputs.zip (undos.map TxInUndo.stored)) view).2 = true ∧
      IsView (CoinsStack.restoreInputs (inputs.zip (undos.map TxInUndo.stored)) view).1 coinsOf
        hashBlock := by
  induction inputs generalizing coinsOf undos with
  | nil =>
    cases hspend
    exact ⟨rfl, rfl, hview⟩
  | cons input inputs ih =>
    obtain ⟨⟨mid, undo⟩, hmid, hrest⟩ := Option.bind_eq_some_iff.mp hspend
    obtain ⟨⟨last, later⟩, hlater, hlast⟩ := Option.bind_eq_some_iff.mp hrest
    cases hlast
    have hkeptMid : CoinsOf.VersionsKept inputs mid := fun other hother =>
      hkept.spendOut hmid other (.tail _ hother)
    obtain ⟨hlength, hclean, hmidView⟩ := ih (hsound.spendOut hmid) hkeptMid hlater
    obtain ⟨hfits, hback⟩ := hmidView.restoreInput hsound (hkept input (.head _)) hmid
    refine ⟨by rw [List.length_cons, List.length_cons, hlength], ?_, ?_⟩
    · exact Bool.and_eq_true_iff.mpr ⟨hclean, hfits⟩
    exact hback

/-- The outputs of a transaction that was not put over other coins. -/
theorem removeOutputs {tx : VersionedTx} (hview : IsView view (after.create env index tx) hashBlock)
    (hnone : after tx.hash = none) : (CoinsStack.removeOutputs env index tx view).2 = true ∧
      IsView (CoinsStack.removeOutputs env index tx view).1 after hashBlock := by
  have hcreated : after.create env index tx tx.hash =
      (Coins.fromTx env.unspendable tx index.height).live := Function.update_self ..
  refine ⟨?_, ?_⟩
  · cases hlive : (Coins.fromTx env.unspendable tx index.height).live with
    | none =>
      have hpruned := hview.isPruned_coinsToModify (hcreated.trans hlive)
      exact Coins.same_of_pruned (Coins.isPruned_clearUnspendable env.unspendable hpruned)
        (Coins.live_eq_none_iff.mp hlive)
    | some found =>
      have hfound := Coins.live_eq_some Coins.cleanup_cleanup hlive
      refine Coins.same_of_eq ?_
      rw [hview.coinsToModify_of_live (hcreated.trans hlive), hfound]
      exact Coins.clearUnspendable_idem env.unspendable
  have hnext := hview.modifyCoins tx.hash .empty
  have hback : Function.update (after.create env index tx) tx.hash Coins.empty.live = after := by
    unfold CoinsOf.create
    rw [Function.update_idem, Coins.live_of_pruned Coins.isPruned_empty, ← hnone,
      Function.update_eq_self]
  rw [hback] at hnext
  exact hnext

theorem disconnectTx {tx : VersionedTx} {mid : CoinsOf} {undo : TxUndo}
    (hview : IsView view (mid.create env index tx) hashBlock) (hsound : coinsOf.Sound)
    (hkept : CoinsOf.VersionsKept (CoinsOf.spentBy tx) coinsOf)
    (hspend : CoinsOf.spendAll (CoinsOf.spentBy tx) coinsOf = some (mid, undo))
    (hnone : mid tx.hash = none) : ∃ back, CoinsStack.disconnectTx env index tx
        (if tx.isCoinBase then none else some (undo.map TxInUndo.stored)) view =
          some (back, true) ∧ IsView back coinsOf hashBlock := by
  obtain ⟨hclean, hmid⟩ := hview.removeOutputs hnone
  unfold CoinsStack.disconnectTx
  dsimp only
  rw [hclean]
  unfold CoinsOf.spentBy at hkept hspend
  cases hcoinBase : tx.isCoinBase with
  | true =>
    rw [hcoinBase] at hspend
    cases hspend
    exact ⟨_, rfl, hmid⟩
  | false =>
    rw [hcoinBase, if_neg Bool.false_ne_true] at hkept hspend
    obtain ⟨hlength, hfits, hback⟩ := hmid.restoreInputs hsound hkept hspend
    rw [if_neg Bool.false_ne_true]
    dsimp only
    rw [if_neg (by rw [List.length_map, hlength]; exact fun hne => hne rfl), hfits]
    exact ⟨_, rfl, hback⟩

/-- The transactions behind the coinbase. -/
theorem disconnectTxs {txs : List VersionedTx} {undos : List TxUndo}
    (hview : IsView view after hashBlock) (hsound : coinsOf.Sound)
    (hplain : ∀ tx ∈ txs, tx.isCoinBase = false)
    (hvalues : ∀ tx ∈ txs, ∀ out ∈ tx.vout, 0 ≤ out.value)
    (hundoable : CoinsOf.Undoable env index txs coinsOf)
    (hconnect : CoinsOf.connectAll env index txs coinsOf = some (after, undos)) :
    undos.length = txs.length ∧
      ∃ back, CoinsStack.disconnectTxs env index (txs.zip ((storedUndo undos).map some)) view =
        some (back, true) ∧ IsView back coinsOf hashBlock := by
  induction txs generalizing coinsOf undos with
  | nil =>
    cases hconnect
    exact ⟨rfl, view, rfl, hview⟩
  | cons tx txs ih =>
    obtain ⟨⟨mid, undo⟩, hmid, hrest⟩ := Option.bind_eq_some_iff.mp hconnect
    obtain ⟨⟨last, later⟩, hlater, hlast⟩ := Option.bind_eq_some_iff.mp hrest
    cases hlast
    obtain ⟨hkept, hnext⟩ := hundoable
    obtain ⟨hnone, hundoableRest⟩ := hnext mid undo hmid
    have hsoundNext : (mid.create env index tx).Sound :=
      (hsound.spendAll hmid).create (hvalues tx (.head _))
    obtain ⟨hlength, first, hfirst, hfirstView⟩ := ih hsoundNext
      (fun other hother => hplain other (.tail _ hother))
      (fun other hother => hvalues other (.tail _ hother)) hundoableRest hlater
    obtain ⟨back, hback, hbackView⟩ := hfirstView.disconnectTx hsound hkept hmid hnone
    rw [hplain tx (.head _), if_neg Bool.false_ne_true] at hback
    refine ⟨by rw [List.length_cons, List.length_cons, hlength], back, ?_, hbackView⟩
    show (CoinsStack.disconnectTxs env index (txs.zip ((storedUndo later).map some)) view >>= _) = _
    rw [hfirst]
    show (CoinsStack.disconnectTx env index tx (some (undo.map TxInUndo.stored)) first >>= _) = _
    rw [hback]
    rfl

end IsView

end Amberchain.Storage
