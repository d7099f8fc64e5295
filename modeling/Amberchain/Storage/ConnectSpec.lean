import Amberchain.Storage.Spending
import Amberchain.Storage.StackMap

/-!
# Views and the map of coins

Each step of connecting and disconnecting a block does to a view what it does to the
map that the view stands for.
-/

namespace Amberchain.Storage

open Transaction CoinsStack

structure IsView (view : CoinsStack) (coinsOf : CoinsOf) (hashBlock : Hash256) : Prop where
  shows : Shows view coinsOf
  tip : view.caches.head?.map CoinsCache.hashBlock = some hashBlock

namespace IsView

variable {view next : CoinsStack} {coinsOf after : CoinsOf} {hashBlock : Hash256}
  {env : ConnectEnv} {index : BlockIndex}

theorem exists_cons (hview : IsView view coinsOf hashBlock) :
    ∃ cache below, view.caches = cache :: below ∧ cache.hashBlock = hashBlock := by
  have htip := hview.tip
  cases hcaches : view.caches with
  | nil =>
    rw [hcaches] at htip
    cases htip
  | cons cache below =>
    rw [hcaches] at htip
    exact ⟨cache, below, rfl, Option.some.inj htip⟩

theorem head_fetchCoins (db : CoinsDB) (caches : List CoinsCache) (txid : Hash256) :
    (fetchCoins db caches txid).2.head?.map CoinsCache.hashBlock =
      caches.head?.map CoinsCache.hashBlock := by
  cases caches with
  | nil => rfl
  | cons cache below =>
    unfold fetchCoins
    split
    · rfl
    split <;> rfl

theorem getCoins (hview : IsView view coinsOf hashBlock) (txid : Hash256) :
    IsView (view.getCoins txid).2 coinsOf hashBlock where
  shows :=
    have hevolves := (hview.shows.consistent.fetched txid).evolves fun _ => none
    ⟨hevolves.consistent, fun other =>
      (hevolves.same other not_false).trans (hview.shows.visible other)⟩
  tip := (head_fetchCoins view.db view.caches txid).trans hview.tip

theorem modifyCoins (hview : IsView view coinsOf hashBlock) (txid : Hash256) (coins : Coins) :
    IsView (view.modifyCoins txid fun _ => coins)
      (Function.update coinsOf txid coins.live) hashBlock := by
  obtain ⟨cache, below, hcaches, hhash⟩ := hview.exists_cons
  obtain ⟨caches, db⟩ := view
  subst hcaches
  have hevolves := modifyCoins_evolves (respectsPruned_const coins) hview.shows.consistent txid
  refine ⟨⟨hevolves.consistent, fun other => ?_⟩, congrArg some hhash⟩
  by_cases hsame : other = txid
  · subst hsame
    rw [Function.update_self]
    exact hevolves.shows other rfl
  rw [Function.update_of_ne hsame, ← hview.shows.visible other]
  exact hevolves.same other hsame

theorem setBestBlock (hview : IsView view coinsOf hashBlock) (other : Hash256) :
    IsView (view.setBestBlock other) coinsOf other := by
  obtain ⟨cache, below, hcaches, _⟩ := hview.exists_cons
  obtain ⟨caches, db⟩ := view
  subst hcaches
  have hevolves :=
    @withHashBlock_evolves db (fun _ => none) cache below hview.shows.consistent other
  exact ⟨⟨hevolves.consistent, fun txid =>
    (hevolves.same txid not_false).trans (hview.shows.visible txid)⟩, rfl⟩

theorem of_getBestBlock (hshows : Shows view coinsOf) (hne : view.caches ≠ []) :
    IsView view.getBestBlock.2 coinsOf view.getBestBlock.1 := by
  have hevolves := @bestBlock_evolves view.db view.caches (fun _ => none) hshows.consistent
  refine ⟨⟨hevolves.consistent, fun txid =>
    (hevolves.same txid not_false).trans (hshows.visible txid)⟩, ?_⟩
  obtain ⟨cache, below, hcaches⟩ := List.exists_cons_of_ne_nil hne
  show (bestBlock view.db view.caches).2.head?.map _ = some (bestBlock view.db view.caches).1
  rw [hcaches]
  unfold bestBlock
  split <;> rfl

section

variable (hview : IsView view coinsOf hashBlock)

include hview

theorem getBestBlock (hne : hashBlock ≠ 0) :
    view.getBestBlock = (hashBlock, view) := by
  obtain ⟨cache, below, hcaches, hhash⟩ := hview.exists_cons
  obtain ⟨caches, db⟩ := view
  subst hcaches
  unfold CoinsStack.getBestBlock bestBlock
  rw [hhash, if_neg hne]

theorem coinsToModify (txid : Hash256) :
    (view.coinsToModify txid).cleanup = view.coinsToModify txid ∧
      (view.coinsToModify txid).live = coinsOf txid := by
  obtain ⟨cache, below, hcaches, _⟩ := hview.exists_cons
  obtain ⟨caches, db⟩ := view
  subst hcaches
  obtain ⟨_, hfits, hlive⟩ := hview.shows.consistent.entryToModify txid
  exact ⟨hfits.clean, hlive.trans (hview.shows.visible txid)⟩

theorem coinsToModify_of_live {txid : Hash256}
    {found : LiveCoins} (hfound : coinsOf txid = some found) :
    view.coinsToModify txid = found.coins := by
  obtain ⟨hclean, hlive⟩ := hview.coinsToModify txid
  exact (Coins.live_eq_some hclean (hlive.trans hfound)).symm

theorem isPruned_coinsToModify {txid : Hash256}
    (hnone : coinsOf txid = none) : (view.coinsToModify txid).isPruned = true :=
  Coins.live_eq_none_iff.mp ((hview.coinsToModify txid).2.trans hnone)

end

section

variable (hview : IsView view coinsOf hashBlock)

include hview

theorem spendInput {prevout : OutPoint} {undo : TxInUndo}
    (hspend : view.spendInput prevout = some (next, undo)) :
    ∃ after, coinsOf.spendOut prevout = some (after, undo) ∧ IsView next after hashBlock := by
  obtain ⟨⟨left, _⟩, hleft, heq⟩ := Option.map_eq_some_iff.mp hspend
  cases heq
  have hspent := Coins.spent_of_spend hleft
  cases hfound : coinsOf prevout.hash with
  | none =>
    have hpruned := hview.isPruned_coinsToModify hfound
    have hnull := List.all_eq_true.mp hpruned _ (List.getElem_mem hspent.inside)
    have hout := hspent.out
    unfold outAt at hout
    rw [List.getElem?_eq_getElem hspent.inside] at hout
    have hunspent := hspent.unspent
    rw [hout] at hunspent
    rw [Option.getD_some, hnull] at hunspent
    cases hunspent
  | some found =>
    rw [hview.coinsToModify_of_live hfound] at hleft
    refine ⟨Function.update coinsOf prevout.hash left.live, ?_, hview.modifyCoins _ left⟩
    unfold CoinsOf.spendOut
    rw [hfound]
    dsimp only
    rw [hleft]
    rfl

theorem spendInputs {inputs : List TxIn} {undos : TxUndo}
    (hspend : CoinsStack.spendInputs inputs view = some (next, undos)) :
    ∃ after, CoinsOf.spendAll inputs coinsOf = some (after, undos) ∧
      IsView next after hashBlock := by
  induction inputs generalizing view coinsOf undos with
  | nil =>
    cases hspend
    exact ⟨coinsOf, rfl, hview⟩
  | cons input inputs ih =>
    obtain ⟨⟨first, undo⟩, hfirst, hrest⟩ := Option.bind_eq_some_iff.mp hspend
    obtain ⟨⟨last, later⟩, hlater, hlast⟩ := Option.bind_eq_some_iff.mp hrest
    cases hlast
    obtain ⟨mid, hmid, hfirstView⟩ := hview.spendInput hfirst
    obtain ⟨after, hafter, hlastView⟩ := ih hfirstView hlater
    refine ⟨after, ?_, hlastView⟩
    unfold CoinsOf.spendAll
    rw [hmid]
    show (CoinsOf.spendAll inputs mid >>= fun rest => some (rest.1, undo :: rest.2)) = _
    rw [hafter]
    rfl

theorem haveInputs {inputs : List TxIn} :
    IsView (CoinsStack.haveInputs inputs view).2 coinsOf hashBlock := by
  induction inputs generalizing view with
  | nil => exact hview
  | cons input inputs ih =>
    have hnext := hview.getCoins input.prevout.hash
    unfold CoinsStack.haveInputs
    dsimp only
    split
    · exact hnext
    split
    · exact ih hnext
    exact hnext

theorem checkTx {block : Block} {i : ℕ} {tx : VersionedTx}
    (hcheck : CoinsStack.checkTx env block i tx view = some next) :
    IsView next coinsOf hashBlock := by
  unfold CoinsStack.checkTx at hcheck
  split at hcheck
  · cases hcheck
    exact hview
  dsimp only at hcheck
  split at hcheck
  · cases hcheck
  split at hcheck
  · cases hcheck
  cases hcheck
  exact hview.haveInputs

theorem updateCoins {tx : VersionedTx} {undo : TxUndo}
    (hupdate : CoinsStack.updateCoins env index tx view = some (next, undo)) :
    ∃ mid : CoinsOf, CoinsOf.spendAll (CoinsOf.spentBy tx) coinsOf = some (mid, undo) ∧
      IsView next (mid.create env index tx) hashBlock := by
  obtain ⟨⟨spent, _⟩, hspent, heq⟩ := Option.map_eq_some_iff.mp hupdate
  cases heq
  unfold CoinsOf.spentBy
  split at hspent
  · rename_i hcoinBase
    cases hspent
    rw [if_pos hcoinBase]
    exact ⟨coinsOf, rfl, hview.modifyCoins _ _⟩
  rename_i hcoinBase
  rw [if_neg hcoinBase]
  obtain ⟨mid, hmid, hspentView⟩ := hview.spendInputs hspent
  exact ⟨mid, hmid, hspentView.modifyCoins _ _⟩

/-- Connecting the transactions does the same to the view and to the map. -/
theorem connectTxs {block : Block} {txs : List VersionedTx} {i : ℕ} {undos : List TxUndo}
    (hconnect : CoinsStack.connectTxs env block index txs i view = some (next, undos)) :
    ∃ after, CoinsOf.connectAll env index txs coinsOf = some (after, undos) ∧
      IsView next after hashBlock := by
  induction txs generalizing view coinsOf i undos with
  | nil =>
    cases hconnect
    exact ⟨coinsOf, rfl, hview⟩
  | cons tx txs ih =>
    obtain ⟨checked, hchecked, hupdate⟩ := Option.bind_eq_some_iff.mp hconnect
    obtain ⟨⟨updated, undo⟩, hupdated, hrest⟩ := Option.bind_eq_some_iff.mp hupdate
    obtain ⟨⟨last, later⟩, hlater, hlast⟩ := Option.bind_eq_some_iff.mp hrest
    cases hlast
    obtain ⟨mid, hmid, hupdatedView⟩ := (hview.checkTx hchecked).updateCoins hupdated
    obtain ⟨after, hafter, hlastView⟩ := ih hupdatedView hlater
    refine ⟨after, ?_, hlastView⟩
    unfold CoinsOf.connectAll
    rw [hmid]
    show (CoinsOf.connectAll env index txs (mid.create env index tx) >>= fun rest =>
      some (rest.1, undo :: rest.2)) = _
    rw [hafter]
    rfl

end

end IsView

end Amberchain.Storage
