import Amberchain.Storage.Spending
import Mathlib.Algebra.BigOperators.Fin
import Mathlib.Algebra.Order.BigOperators.Group.Finset

/-!
# The value of coins

What the unspent outputs of a map of coins come to, and what spending and creating outputs
does to that.
-/

namespace Amberchain.Storage

open Transaction

noncomputable instance : Fintype Hash256 :=
  Fintype.ofInjective (BitVec.toFin (w := 256)) fun _ _ => BitVec.eq_of_toFin_eq

def unspentValue (out : TxOut) : ℤ :=
  if isNull out then 0 else out.value

/-- The unspent outputs have values that are not negative and not above a bound. -/
def ValuesWithin (bound : ℤ) (vout : List TxOut) : Prop :=
  ∀ out ∈ vout, isNull out = false → 0 ≤ out.value ∧ out.value ≤ bound

@[simp]
theorem unspentValue_nullOut : unspentValue nullOut = 0 :=
  rfl

theorem unspentValue_of_null {out : TxOut} (hnull : isNull out = true) : unspentValue out = 0 :=
  if_pos hnull

theorem unspentValue_of_unspent {out : TxOut} (hunspent : isNull out = false) :
    unspentValue out = out.value :=
  if_neg (Bool.eq_false_iff.mp hunspent)

variable {vout : List TxOut}

theorem ValuesWithin.unspentValue_nonneg {bound : ℤ}
    (hwithin : ValuesWithin bound vout) {out : TxOut} (hmem : out ∈ vout) :
    0 ≤ unspentValue out := by
  cases hnull : isNull out with
  | true => rw [unspentValue_of_null hnull]
  | false =>
    rw [unspentValue_of_unspent hnull]
    exact (hwithin out hmem hnull).1

def valueOf (vout : List TxOut) : ℤ :=
  (vout.map unspentValue).sum

theorem valueOf_append (first second : List TxOut) :
    valueOf (first ++ second) = valueOf first + valueOf second := by
  rw [valueOf, List.map_append, List.sum_append]
  rfl

theorem valueOf_nonneg {bound : ℤ} (hwithin : ValuesWithin bound vout) : 0 ≤ valueOf vout := by
  apply List.sum_nonneg
  intro value hmem
  obtain ⟨out, hout, rfl⟩ := List.mem_map.mp hmem
  exact hwithin.unspentValue_nonneg hout

/-- Null outputs at the end are worth nothing. -/
theorem valueOf_rdropWhile (vout : List TxOut) : valueOf (vout.rdropWhile isNull) = valueOf vout := by
  induction vout using List.reverseRecOn with
  | nil => rfl
  | append_singleton outs out ih =>
    by_cases hnull : isNull out = true
    · have hlast : valueOf [out] = 0 := by
        rw [valueOf, List.map_singleton, List.sum_singleton, unspentValue_of_null hnull]
      rw [List.rdropWhile_concat_pos _ _ _ hnull, ih, valueOf_append, hlast, add_zero]
    rw [List.rdropWhile_concat_neg _ _ _ hnull]

/-- Spending an output takes its value away. -/
theorem valueOf_set_nullOut {n : ℕ} (hn : n < vout.length) :
    valueOf (vout.set n nullOut) + unspentValue (outAt vout n) = valueOf vout := by
  have hout : outAt vout n = vout[n] := by
    rw [outAt, List.getElem?_eq_getElem hn]
    rfl
  have hset : vout.set n nullOut = vout.take n ++ nullOut :: vout.drop (n + 1) :=
    List.set_eq_take_append_cons_drop.trans (if_pos hn)
  have hsplit : vout = vout.take n ++ vout[n] :: vout.drop (n + 1) := by
    rw [List.getElem_cons_drop, List.take_append_drop]
  have hcons : ∀ out outs, valueOf (out :: outs) = unspentValue out + valueOf outs := fun _ _ => rfl
  calc
    valueOf (vout.set n nullOut) + unspentValue (outAt vout n)
        = valueOf (vout.take n) + (0 + valueOf (vout.drop (n + 1))) + unspentValue vout[n] := by
      rw [hset, hout, valueOf_append, hcons, unspentValue_nullOut]
    _ = valueOf (vout.take n) + (unspentValue vout[n] + valueOf (vout.drop (n + 1))) := by ring
    _ = valueOf vout := by
      conv_rhs => rw [hsplit]
      rw [valueOf_append, hcons]

def unspentAt (vout : List TxOut) (n : ℕ) : Option TxOut :=
  vout[n]?.filter fun out => !isNull out

theorem unspentAt_rdropWhile (vout : List TxOut) (n : ℕ) :
    unspentAt (vout.rdropWhile isNull) n = unspentAt vout n := by
  induction vout using List.reverseRecOn with
  | nil => rfl
  | append_singleton outs out ih =>
    by_cases hnull : isNull out = true
    · rw [List.rdropWhile_concat_pos _ _ _ hnull, ih, unspentAt, unspentAt, List.getElem?_append]
      split
      · rfl
      rename_i hlast
      rw [List.getElem?_eq_none (Nat.not_lt.mp hlast), List.getElem?_singleton]
      split
      · exact (Option.filter_some_neg (by rw [hnull]; decide)).symm
      · rfl
    rw [List.rdropWhile_concat_neg _ _ _ hnull]

theorem unspentAt_set {n : ℕ} (hn : n < vout.length) (i : ℕ) :
    unspentAt (vout.set n nullOut) i = if i = n then none else unspentAt vout i := by
  unfold unspentAt
  split
  · rename_i heq
    rw [heq, List.getElem?_set_self hn]
    rfl
  rename_i hne
  rw [List.getElem?_set_ne (Ne.symm hne)]

theorem unspentAt_of_all_null (hnull : vout.all isNull = true) (n : ℕ) :
    unspentAt vout n = none := by
  rw [unspentAt, Option.filter_eq_none_iff]
  intro out hout
  have hmem := List.mem_of_getElem? hout
  rw [List.all_eq_true.mp hnull out hmem]
  exact Bool.false_ne_true

def liveValue : Option LiveCoins → ℤ
  | none => 0
  | some found => valueOf found.coins.vout

theorem valueOf_of_pruned {coins : Coins} (hpruned : coins.isPruned = true) :
    valueOf coins.vout = 0 := by
  apply List.sum_eq_zero
  intro value hmem
  obtain ⟨out, hout, rfl⟩ := List.mem_map.mp hmem
  exact unspentValue_of_null (List.all_eq_true.mp hpruned out hout)

theorem liveValue_live (coins : Coins) : liveValue coins.live = valueOf coins.vout := by
  by_cases hpruned : coins.isPruned = true
  · rw [Coins.live_of_pruned hpruned, valueOf_of_pruned hpruned]
    rfl
  rw [Coins.live, dif_neg hpruned]
  exact valueOf_rdropWhile coins.vout

/-- Created coins are worth no more than the outputs of the transaction. -/
theorem valueOf_clearUnspendable_le {bound : ℤ} {coins : Coins} (unspendable : Bytes → Bool)
    (hwithin : ValuesWithin bound coins.vout) :
    valueOf (coins.clearUnspendable unspendable).vout ≤ valueOf coins.vout := by
  calc
    valueOf (coins.clearUnspendable unspendable).vout
        = valueOf (coins.vout.map fun out =>
          if unspendable out.scriptPubKey then nullOut else out) := valueOf_rdropWhile _
    _ ≤ valueOf coins.vout := by
      rw [valueOf, List.map_map]
      apply List.sum_le_sum
      intro out hmem
      rw [Function.comp_apply]
      split
      · exact hwithin.unspentValue_nonneg hmem
      exact le_refl _

namespace CoinsOf

variable {coinsOf next : CoinsOf} {bound : ℤ}

noncomputable def value (coinsOf : CoinsOf) : ℤ :=
  ∑ txid, liveValue (coinsOf txid)

/-- All unspent outputs have values that are not negative and not above a bound. -/
def Within (bound : ℤ) (coinsOf : CoinsOf) : Prop :=
  ∀ txid found, coinsOf txid = some found → ValuesWithin bound found.coins.vout

/-- An output that is not spent. -/
def unspent (coinsOf : CoinsOf) (prevout : OutPoint) : Option TxOut :=
  (coinsOf prevout.hash).bind fun found => unspentAt found.coins.vout prevout.n

def inputValue (coinsOf : CoinsOf) (inputs : List TxIn) : ℤ :=
  (inputs.map fun input => ((unspent coinsOf input.prevout).map TxOut.value).getD 0).sum

theorem value_update (txid : Hash256) (coins : Option LiveCoins) :
    value (Function.update coinsOf txid coins) + liveValue (coinsOf txid)
      = value coinsOf + liveValue coins := by
  have hupdate : (fun other => liveValue (Function.update coinsOf txid coins other))
      = Function.update (fun other => liveValue (coinsOf other)) txid (liveValue coins) := by
    funext other
    rw [Function.update_apply, Function.update_apply]
    split
    · rfl
    · rfl
  have hsum := Finset.sum_update_of_mem (Finset.mem_univ txid)
    (fun other => liveValue (coinsOf other)) (liveValue coins)
  have hsplit := Finset.add_sum_erase Finset.univ (fun other => liveValue (coinsOf other))
    (Finset.mem_univ txid)
  rw [Finset.sdiff_singleton_eq_erase] at hsum
  calc
    value (Function.update coinsOf txid coins) + liveValue (coinsOf txid)
        = liveValue coins + ∑ other ∈ Finset.univ.erase txid, liveValue (coinsOf other)
          + liveValue (coinsOf txid) := by
      rw [value, hupdate, hsum]
    _ = value coinsOf + liveValue coins := by
      rw [value, ← hsplit]
      ring

theorem Within.liveValue_nonneg (hwithin : Within bound coinsOf) (txid : Hash256) :
    0 ≤ liveValue (coinsOf txid) := by
  cases hfound : coinsOf txid with
  | none => exact le_refl _
  | some found => exact valueOf_nonneg (hwithin txid found hfound)

theorem Within.value_nonneg (hwithin : Within bound coinsOf) : 0 ≤ value coinsOf :=
  Finset.sum_nonneg fun txid _ => hwithin.liveValue_nonneg txid

theorem within_update {txid : Hash256} {coins : Coins} (hwithin : Within bound coinsOf)
    (hcoins : ValuesWithin bound coins.vout) :
    Within bound (Function.update coinsOf txid coins.live) := by
  intro other found hfound
  by_cases hsame : other = txid
  · rw [hsame, Function.update_self] at hfound
    intro out hmem
    rw [Coins.live] at hfound
    split at hfound
    · cases hfound
    cases hfound
    exact hcoins out ((List.rdropWhile_prefix isNull coins.vout).subset hmem)
  rw [Function.update_of_ne hsame] at hfound
  exact hwithin other found hfound

/-! ### Spending -/

variable {undo : TxInUndo} {prevout : OutPoint}

theorem unspent_of_spendOut (hspend : spendOut coinsOf prevout = some (next, undo)) :
    unspent coinsOf prevout = some undo.txout := by
  obtain ⟨found, left, hfound, hspent, -⟩ := spendOut_spec hspend
  have hunspent := hspent.unspent
  rw [hspent.out, outAt, List.getElem?_eq_getElem hspent.inside] at hunspent
  rw [unspent, hfound, Option.bind_some, unspentAt, hspent.out, outAt,
    List.getElem?_eq_getElem hspent.inside]
  exact Option.filter_some_pos (by rw [Bool.not_eq_true']; exact hunspent)

/-- The other outputs are as they were. -/
theorem unspent_spendOut
    (hspend : spendOut coinsOf prevout = some (next, undo)) (other : OutPoint) :
    unspent next other = if other = prevout then none else unspent coinsOf other := by
  obtain ⟨found, left, hfound, hspent, rfl⟩ := spendOut_spec hspend
  by_cases hhash : other.hash = prevout.hash
  · have hleft : unspent (Function.update coinsOf prevout.hash left.live) other
        = unspentAt left.vout other.n := by
      rw [unspent, hhash, Function.update_self]
      by_cases hpruned : left.isPruned = true
      · rw [Coins.live_of_pruned hpruned, unspentAt_of_all_null hpruned]
        rfl
      rw [Coins.live, dif_neg hpruned]
      exact unspentAt_rdropWhile left.vout other.n
    have hother : other = prevout ↔ other.n = prevout.n := by
      cases other
      cases prevout
      simp only [OutPoint.mk.injEq] at hhash ⊢
      exact ⟨And.right, fun hn => ⟨hhash, hn⟩⟩
    rw [hleft, hspent.rest, unspentAt_rdropWhile, unspentAt_set hspent.inside]
    simp only [hother, unspent, hhash, hfound, Option.bind_some]
  have hne : other ≠ prevout := fun heq => hhash (congrArg OutPoint.hash heq)
  rw [if_neg hne, unspent, unspent, Function.update_of_ne hhash]

theorem spendOut_value (hspend : spendOut coinsOf prevout = some (next, undo)) :
    value next + undo.txout.value = value coinsOf := by
  obtain ⟨found, left, hfound, hspent, rfl⟩ := spendOut_spec hspend
  have hvalue : undo.txout.value = unspentValue (outAt found.coins.vout prevout.n) := by
    rw [← hspent.out, unspentValue_of_unspent hspent.unspent]
  have hleft : liveValue left.live + undo.txout.value = liveValue (coinsOf prevout.hash) := by
    rw [liveValue_live, hspent.rest, hvalue, hfound, valueOf_rdropWhile]
    exact valueOf_set_nullOut hspent.inside
  have hupdate := @value_update coinsOf prevout.hash left.live
  omega

theorem Within.spendOut (hwithin : Within bound coinsOf)
    (hspend : CoinsOf.spendOut coinsOf prevout = some (next, undo)) : Within bound next := by
  obtain ⟨found, left, hfound, hspent, rfl⟩ := spendOut_spec hspend
  apply within_update hwithin
  intro out hmem hunspent
  rw [hspent.rest] at hmem
  cases List.mem_or_eq_of_mem_set ((List.rdropWhile_prefix _ _).subset hmem) with
  | inl hold => exact hwithin _ found hfound out hold hunspent
  | inr hnull =>
    rw [hnull] at hunspent
    cases hunspent

/-- Inputs that can be spent one after the other name unspent outputs, and take their value. -/
theorem spendAll_value {inputs : List TxIn} {undos : TxUndo}
    (hspend : spendAll inputs coinsOf = some (next, undos)) :
    (∀ input ∈ inputs, (unspent coinsOf input.prevout).isSome = true)
      ∧ value next + inputValue coinsOf inputs = value coinsOf := by
  induction inputs generalizing coinsOf undos with
  | nil =>
    cases hspend
    exact ⟨nofun, add_zero _⟩
  | cons input inputs ih =>
    obtain ⟨⟨mid, undo⟩, hmid, hrest⟩ := Option.bind_eq_some_iff.mp hspend
    obtain ⟨⟨last, later⟩, hlater, hlast⟩ := Option.bind_eq_some_iff.mp hrest
    cases hlast
    obtain ⟨hfound, hvalue⟩ := ih hlater
    have hfirst := unspent_of_spendOut hmid
    have hsame : ∀ other ∈ inputs, unspent mid other.prevout = unspent coinsOf other.prevout := by
      intro other hother
      have hunspent := hfound other hother
      rw [unspent_spendOut hmid] at hunspent ⊢
      split at hunspent
      · cases hunspent
      rename_i hne
      rw [if_neg hne]
    constructor
    · intro other hother
      cases List.mem_cons.mp hother with
      | inl heq =>
        rw [heq, hfirst]
        rfl
      | inr hmem =>
        rw [← hsame other hmem]
        exact hfound other hmem
    have hinputs : inputValue mid inputs = inputValue coinsOf inputs := by
      rw [inputValue, List.map_congr_left fun other hother => by rw [hsame other hother]]
      rfl
    have hcons : inputValue coinsOf (input :: inputs)
        = undo.txout.value + inputValue coinsOf inputs := by
      rw [inputValue, List.map_cons, hfirst]
      rfl
    have htaken := spendOut_value hmid
    omega

theorem Within.spendAll {inputs : List TxIn} {undos : TxUndo} (hwithin : Within bound coinsOf)
    (hspend : CoinsOf.spendAll inputs coinsOf = some (next, undos)) : Within bound next := by
  induction inputs generalizing coinsOf undos with
  | nil =>
    cases hspend
    exact hwithin
  | cons input inputs ih =>
    obtain ⟨⟨mid, undo⟩, hmid, hrest⟩ := Option.bind_eq_some_iff.mp hspend
    obtain ⟨⟨last, later⟩, hlater, hlast⟩ := Option.bind_eq_some_iff.mp hrest
    cases hlast
    exact ih (hwithin.spendOut hmid) hlater

/-! ### Creating -/

theorem valuesWithin_fromTx {tx : VersionedTx} {unspendable : Bytes → Bool} {height : ℤ}
    (htx : ∀ out ∈ tx.vout, 0 ≤ out.value ∧ out.value ≤ bound) :
    ValuesWithin bound (Coins.fromTx unspendable tx height).vout := by
  intro out hmem hunspent
  obtain ⟨source, hsource, rfl⟩ := List.mem_map.mp ((List.rdropWhile_prefix _ _).subset hmem)
  split at hunspent
  · cases hunspent
  rename_i hspendable
  rw [if_neg hspendable]
  exact htx source hsource

/-- New coins are put over the old ones of their txid. -/
theorem value_create_le {tx : VersionedTx} {unspendable : Bytes → Bool} {height : ℤ}
    (hwithin : Within bound coinsOf) (htx : ∀ out ∈ tx.vout, 0 ≤ out.value ∧ out.value ≤ bound) :
    value (Function.update coinsOf tx.hash (Coins.fromTx unspendable tx height).live)
      ≤ value coinsOf + (tx.vout.map TxOut.value).sum := by
  have hvout : ValuesWithin bound tx.vout := fun out hmem _ => htx out hmem
  have hunspent : valueOf tx.vout = (tx.vout.map TxOut.value).sum := by
    rw [valueOf]
    congr 1
    apply List.map_congr_left
    intro out hmem
    apply unspentValue_of_unspent
    rw [isNull, decide_eq_false_iff_not]
    have hvalue := (htx out hmem).1
    omega
  have hcreated : liveValue (Coins.fromTx unspendable tx height).live
      ≤ (tx.vout.map TxOut.value).sum := by
    rw [liveValue_live, ← hunspent]
    exact @valueOf_clearUnspendable_le bound ⟨tx.isCoinBase, tx.vout, height, tx.version⟩
      unspendable hvout
  have hold := hwithin.liveValue_nonneg tx.hash
  have hupdate := @value_update coinsOf tx.hash (Coins.fromTx unspendable tx height).live
  omega

end CoinsOf

end Amberchain.Storage
