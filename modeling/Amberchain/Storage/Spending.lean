import Amberchain.Storage.ConnectBlock

/-!
# Spending in a map of coins

What a transaction does to a map from txids to coins that are there, and why the
undo data of an output is enough to bring it back.
-/

namespace Amberchain.Storage

open Transaction

/-- The output at a place; there are only null outputs behind the last one. -/
def outAt (vout : List TxOut) (n : ℕ) : TxOut :=
  vout[n]?.getD nullOut

def Cleared (vout : List TxOut) : Prop :=
  ∀ out ∈ vout, isNull out = true → out = nullOut

theorem Cleared.of_subset {first second : List TxOut} (hsecond : Cleared second)
    (hsub : ∀ out ∈ first, out ∈ second ∨ out = nullOut) : Cleared first := by
  intro out hmem hnull
  cases hsub out hmem with
  | inl hin => exact hsecond out hin hnull
  | inr heq => exact heq

variable {vout : List TxOut}

theorem outAt_of_length_le {n : ℕ} (hlength : vout.length ≤ n) : outAt vout n = nullOut := by
  unfold outAt
  rw [List.getElem?_eq_none hlength]
  rfl

theorem outAt_append_null (vout : List TxOut) (count n : ℕ) :
    outAt (vout ++ List.replicate count nullOut) n = outAt vout n := by
  by_cases hn : n < vout.length
  · unfold outAt
    rw [List.getElem?_append_left hn]
  rw [outAt_of_length_le (Nat.not_lt.mp hn)]
  unfold outAt
  rw [List.getElem?_append_right (Nat.not_lt.mp hn), List.getElem?_replicate]
  split <;> rfl

theorem outAt_set {n : ℕ} (hn : n < vout.length) (out : TxOut) (i : ℕ) :
    outAt (vout.set n out) i = if i = n then out else outAt vout i := by
  unfold outAt
  by_cases hi : i = n
  · rw [if_pos hi, hi, List.getElem?_set_self hn]
    rfl
  rw [if_neg hi, List.getElem?_set_ne (Ne.symm hi)]

theorem outAt_putOut (vout : List TxOut) (n : ℕ) (out : TxOut) (i : ℕ) :
    outAt (CoinsStack.putOut vout n out) i = if i = n then out else outAt vout i := by
  have hlength : n < (vout ++ List.replicate (n + 1 - vout.length) nullOut).length := by
    rw [List.length_append, List.length_replicate]
    omega
  unfold CoinsStack.putOut
  rw [outAt_set hlength, outAt_append_null]

/-- Null outputs at the end do not count. -/
theorem outAt_rdropWhile (hcleared : Cleared vout) (i : ℕ) :
    outAt (vout.rdropWhile isNull) i = outAt vout i := by
  induction vout using List.reverseRecOn with
  | nil => rfl
  | append_singleton outs out ih =>
    by_cases hnull : isNull out = true
    · have hout : out = nullOut := hcleared out (by simp) hnull
      have houts : Cleared outs := fun other hmem => hcleared other (List.mem_append_left _ hmem)
      rw [List.rdropWhile_concat_pos _ _ _ hnull, ih houts, hout]
      exact (outAt_append_null outs 1 i).symm
    rw [List.rdropWhile_concat_neg _ _ _ hnull]

theorem cleared_putOut (hcleared : Cleared vout) {out : TxOut}
    (hout : isNull out = false) (n : ℕ) : Cleared (CoinsStack.putOut vout n out) := by
  intro other hmem hnull
  cases List.mem_or_eq_of_mem_set hmem with
  | inl hold =>
    cases List.mem_append.mp hold with
    | inl hin => exact hcleared other hin hnull
    | inr hnew => exact (List.mem_replicate.mp hnew).2
  | inr heq =>
    rw [heq, hout] at hnull
    cases hnull

/-- A trimmed list ends with an output that is not null. -/
theorem not_null_last (hclean : vout.rdropWhile isNull = vout)
    (hne : vout ≠ []) : isNull (outAt vout (vout.length - 1)) = false := by
  have hlast := List.rdropWhile_last_not isNull vout (by rwa [hclean])
  rw [Bool.not_eq_true] at hlast
  have hlt : vout.length - 1 < vout.length := by
    have := List.length_pos_of_ne_nil hne
    omega
  have hout : outAt vout (vout.length - 1) = vout.getLast hne := by
    unfold outAt
    rw [List.getElem?_eq_getElem hlt, List.getLast_eq_getElem]
    rfl
  rw [hout]
  convert hlast using 3
  exact hclean.symm

/-- Trimmed lists with the same outputs are the same. -/
theorem eq_of_outAt {first second : List TxOut} (hfirst : first.rdropWhile isNull = first)
    (hsecond : second.rdropWhile isNull = second)
    (hout : ∀ i, outAt first i = outAt second i) : first = second := by
  have hle : ∀ {short long : List TxOut}, long.rdropWhile isNull = long →
      (∀ i, outAt short i = outAt long i) → long.length ≤ short.length := by
    intro short long hlong hsame
    by_contra hlt
    have hne : long ≠ [] := by
      rintro rfl
      exact hlt (Nat.zero_le _)
    have hlast := not_null_last hlong hne
    rw [← hsame, outAt_of_length_le (by omega)] at hlast
    cases hlast
  have hlength : first.length = second.length :=
    Nat.le_antisymm (hle hfirst fun i => (hout i).symm) (hle hsecond hout)
  refine List.ext_getElem hlength fun i hi hi' => ?_
  have hsame := hout i
  unfold outAt at hsame
  rw [List.getElem?_eq_getElem hi, List.getElem?_eq_getElem hi'] at hsame
  exact hsame

namespace Coins

variable {coins left : Coins} {n : ℕ} {undo : TxInUndo}

/-- What `Spend` leaves and remembers. -/
structure Spent (coins : Coins) (n : ℕ) (left : Coins) (undo : TxInUndo) : Prop where
  inside : n < coins.vout.length
  out : undo.txout = outAt coins.vout n
  unspent : isNull undo.txout = false
  rest : left = { coins with vout := (coins.vout.set n nullOut).rdropWhile isNull }
  last : left.vout = [] → undo = ⟨undo.txout, coins.coinBase, coins.height, coins.version⟩
  more : left.vout ≠ [] → undo.height = 0

theorem spent_of_spend (hspend : coins.spend n = some (left, undo)) : Spent coins n left undo := by
  unfold spend at hspend
  cases hget : coins.vout[n]? with
  | none =>
    rw [hget] at hspend
    cases hspend
  | some out =>
    rw [hget] at hspend
    dsimp only at hspend
    have hn : n < coins.vout.length := (List.getElem?_eq_some_iff.mp hget).1
    have hout : outAt coins.vout n = out := by
      unfold outAt
      rw [hget]
      rfl
    split at hspend
    · cases hspend
    rename_i hnull
    rw [Bool.not_eq_true] at hnull
    cases hspend
    split
    · rename_i hlast
      exact ⟨hn, hout.symm, hnull, rfl, fun _ => rfl, fun hne => absurd hlast hne⟩
    rename_i hmore
    exact ⟨hn, hout.symm, hnull, rfl, fun hlast => absurd hlast hmore, fun _ => rfl⟩

section

variable (hspent : Spent coins n left undo) (hcleared : Cleared coins.vout)

include hspent hcleared

theorem Spent.outAt_left
    (i : ℕ) : outAt left.vout i = if i = n then nullOut else outAt coins.vout i := by
  have hset : Cleared (coins.vout.set n nullOut) := hcleared.of_subset fun out hmem =>
    List.mem_or_eq_of_mem_set hmem
  rw [hspent.rest]
  rw [outAt_rdropWhile hset, outAt_set hspent.inside]

theorem Spent.cleared :
    Cleared left.vout := by
  rw [hspent.rest]
  refine hcleared.of_subset fun out hmem => ?_
  exact List.mem_or_eq_of_mem_set ((List.rdropWhile_prefix _ _).subset hmem)

/-- Putting the output back gives the outputs that there were. -/
theorem Spent.putOut_left
    (hclean : coins.cleanup = coins) :
    (CoinsStack.putOut left.vout n undo.txout).rdropWhile isNull = coins.vout := by
  have hput : Cleared (CoinsStack.putOut left.vout n undo.txout) :=
    cleared_putOut (hspent.cleared hcleared) hspent.unspent n
  refine eq_of_outAt (List.rdropWhile_idempotent ..) (congrArg Coins.vout hclean) fun i => ?_
  rw [outAt_rdropWhile hput, outAt_putOut]
  by_cases hi : i = n
  · rw [if_pos hi, hspent.out, hi]
  rw [if_neg hi, hspent.outAt_left hcleared, if_neg hi]

end

theorem Spent.live_left (hspent : Spent coins n left undo)
    {found : LiveCoins} (hlive : left.live = some found) : found.coins = left := by
  refine live_eq_some ?_ hlive
  rw [hspent.rest]
  exact congrArg (fun vout => ({ coins with vout } : Coins)) (List.rdropWhile_idempotent ..)

theorem clearUnspendable_idem (unspendable : Bytes → Bool) :
    (coins.clearUnspendable unspendable).clearUnspendable unspendable =
      coins.clearUnspendable unspendable := by
  have hsame : ∀ out ∈ (coins.clearUnspendable unspendable).vout,
      (if unspendable out.scriptPubKey then nullOut else out) = out := by
    intro out hmem
    obtain ⟨source, _, rfl⟩ := List.mem_map.mp ((List.rdropWhile_prefix _ _).subset hmem)
    by_cases hsource : unspendable source.scriptPubKey = true
    · rw [if_pos hsource]
      split <;> rfl
    · rw [if_neg hsource, if_neg hsource]
  have hmap : (coins.clearUnspendable unspendable).vout.map
      (fun out => if unspendable out.scriptPubKey then nullOut else out) =
      (coins.clearUnspendable unspendable).vout :=
    (List.map_congr_left hsame).trans (List.map_id _)
  calc
    (coins.clearUnspendable unspendable).clearUnspendable unspendable =
        cleanup { coins.clearUnspendable unspendable with
          vout := (coins.clearUnspendable unspendable).vout } := by
      rw [← hmap]
      rfl
    _ = coins.clearUnspendable unspendable :=
       @cleanup_cleanup { coins with
        vout := coins.vout.map fun out => if unspendable out.scriptPubKey then nullOut else out }

theorem isPruned_clearUnspendable (unspendable : Bytes → Bool) (hpruned : coins.isPruned = true)
    : (coins.clearUnspendable unspendable).isPruned = true := by
  unfold clearUnspendable
  rw [isPruned_cleanup]
  refine List.all_eq_true.mpr fun out hmem => ?_
  obtain ⟨source, hsource, rfl⟩ := List.mem_map.mp hmem
  split
  · rfl
  exact List.all_eq_true.mp hpruned source hsource

end Coins

abbrev CoinsOf :=
  Hash256 → Option LiveCoins

namespace CoinsOf

variable (coinsOf : CoinsOf)

def spendOut (prevout : OutPoint) : Option (CoinsOf × TxInUndo) :=
  match coinsOf prevout.hash with
  | none => none
  | some found =>
    (found.coins.spend prevout.n).map fun (left, undo) =>
      (Function.update coinsOf prevout.hash left.live, undo)

def spendAll : List TxIn → CoinsOf → Option (CoinsOf × TxUndo)
  | [], coinsOf => some (coinsOf, [])
  | input :: inputs, coinsOf => do
    let (coinsOf, undo) ← spendOut coinsOf input.prevout
    let (coinsOf, undos) ← spendAll inputs coinsOf
    some (coinsOf, undo :: undos)

def spentBy (tx : VersionedTx) : List TxIn :=
  if tx.isCoinBase then [] else tx.vin

def create (env : ConnectEnv) (index : BlockIndex) (tx : VersionedTx) : CoinsOf :=
  Function.update coinsOf tx.hash (Coins.fromTx env.unspendable tx index.height).live

/-- Coins come from transactions after the genesis block, and null outputs are
cleared. -/
def Sound : Prop :=
  ∀ txid found, coinsOf txid = some found →
    Cleared found.coins.vout ∧ found.coins.height ≠ 0

def connectAll (env : ConnectEnv) (index : BlockIndex) :
    List VersionedTx → CoinsOf → Option (CoinsOf × List TxUndo)
  | [], coinsOf => some (coinsOf, [])
  | tx :: txs, coinsOf => do
    let (coinsOf, undo) ← spendAll (spentBy tx) coinsOf
    let (coinsOf, undos) ← connectAll env index txs (coinsOf.create env index tx)
    some (coinsOf, undo :: undos)

def VersionsKept (inputs : List TxIn) (coinsOf : CoinsOf) : Prop :=
  ∀ input ∈ inputs, ∀ found, coinsOf input.prevout.hash = some found → 0 ≤ found.coins.version

def Undoable (env : ConnectEnv) (index : BlockIndex) : List VersionedTx → CoinsOf → Prop
  | [], _ => True
  | tx :: txs, coinsOf => VersionsKept (spentBy tx) coinsOf ∧
      ∀ mid undo, spendAll (spentBy tx) coinsOf = some (mid, undo) →
        mid tx.hash = none ∧ Undoable env index txs (mid.create env index tx)

variable {coinsOf} {next : CoinsOf} {prevout : OutPoint} {undo : TxInUndo}

theorem spendOut_spec (hspend : spendOut coinsOf prevout = some (next, undo)) :
    ∃ found left, coinsOf prevout.hash = some found ∧ found.coins.Spent prevout.n left undo ∧
      next = Function.update coinsOf prevout.hash left.live := by
  unfold spendOut at hspend
  split at hspend
  · cases hspend
  rename_i found hfound
  obtain ⟨⟨left, _⟩, hleft, heq⟩ := Option.map_eq_some_iff.mp hspend
  cases heq
  exact ⟨found, left, hfound, Coins.spent_of_spend hleft, rfl⟩

theorem Sound.spendOut (hsound : coinsOf.Sound)
    (hspend : CoinsOf.spendOut coinsOf prevout = some (next, undo)) : next.Sound := by
  obtain ⟨found, left, hfound, hspent, rfl⟩ := spendOut_spec hspend
  intro txid other hother
  by_cases hsame : txid = prevout.hash
  · subst hsame
    rw [Function.update_self] at hother
    rw [hspent.live_left hother]
    refine ⟨hspent.cleared (hsound _ found hfound).1, ?_⟩
    rw [hspent.rest]
    exact (hsound _ found hfound).2
  rw [Function.update_of_ne hsame] at hother
  exact hsound txid other hother

theorem VersionsKept.spendOut {inputs : List TxIn} (hkept : VersionsKept inputs coinsOf)
    (hspend : CoinsOf.spendOut coinsOf prevout = some (next, undo)) : VersionsKept inputs next := by
  obtain ⟨found, left, hfound, hspent, rfl⟩ := spendOut_spec hspend
  intro input hmem other hother
  by_cases hsame : input.prevout.hash = prevout.hash
  · rw [hsame, Function.update_self] at hother
    rw [hspent.live_left hother, hspent.rest]
    exact hkept input hmem found (hsame ▸ hfound)
  rw [Function.update_of_ne hsame] at hother
  exact hkept input hmem other hother

theorem Sound.spendAll {inputs : List TxIn} {undos : TxUndo} (hsound : coinsOf.Sound)
    (hspend : CoinsOf.spendAll inputs coinsOf = some (next, undos)) : next.Sound := by
  induction inputs generalizing coinsOf undos with
  | nil =>
    cases hspend
    exact hsound
  | cons input inputs ih =>
    obtain ⟨⟨mid, undo⟩, hmid, hrest⟩ := Option.bind_eq_some_iff.mp hspend
    obtain ⟨⟨last, later⟩, hlater, hlast⟩ := Option.bind_eq_some_iff.mp hrest
    cases hlast
    exact ih (hsound.spendOut hmid) hlater

/-- A transaction whose output values are not negative. -/
theorem Sound.create {env : ConnectEnv} {index : BlockIndex} {tx : VersionedTx}
    (hsound : coinsOf.Sound) (hvalues : ∀ out ∈ tx.vout, 0 ≤ out.value) :
    (coinsOf.create env index tx).Sound := by
  intro txid found hfound
  by_cases hsame : txid = tx.hash
  · subst hsame
    unfold CoinsOf.create at hfound
    rw [Function.update_self] at hfound
    rw [Coins.live_eq_some Coins.cleanup_cleanup hfound]
    refine ⟨fun out hmem hnull => ?_, ?_⟩
    · obtain ⟨source, hsource, rfl⟩ := List.mem_map.mp ((List.rdropWhile_prefix _ _).subset hmem)
      split
      · rfl
      rename_i hspendable
      rw [if_neg hspendable] at hnull
      have hvalue := hvalues source hsource
      unfold isNull at hnull
      rw [decide_eq_true_iff] at hnull
      omega
    show (index.prevHeight + 1 : ℤ) ≠ 0
    omega
  unfold CoinsOf.create at hfound
  rw [Function.update_of_ne hsame] at hfound
  exact hsound txid found hfound

end CoinsOf

end Amberchain.Storage
