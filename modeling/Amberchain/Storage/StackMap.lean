import Amberchain.Storage.CacheSpec

/-!
# A stack of caches is a map

Operations on the caches of a stack, at any level, against the same edits of one
map.  They agree as long as nothing is changed below a cache that remembers it.
-/

namespace Amberchain.Storage

/-- An operation on the view at a level; `AccessCoins` is a `getCoins`. -/
inductive CacheOp where
  | getCoins (level : ℕ) (txid : Hash256)
  | haveCoins (level : ℕ) (txid : Hash256)
  | modifyCoins (level : ℕ) (txid : Hash256) (edit : Coins → Coins)
  | setBestBlock (level : ℕ) (hashBlock : Hash256)
  | getBestBlock (level : ℕ)
  | batchWrite (level : ℕ) (mapCoins : CoinsMap) (hashBlock : Hash256)
  | flush (level : ℕ)

def CacheOp.apply (coinsOf : Hash256 → Option LiveCoins) : CacheOp → Hash256 → Option LiveCoins
  | .modifyCoins _ txid edit => Function.update coinsOf txid (CoinsStack.edited edit (coinsOf txid))
  | .batchWrite _ mapCoins _ => fun txid =>
    match mapCoins.lookup txid with
    | none => coinsOf txid
    | some entry => if entry.dirty then entry.coins.live else coinsOf txid
  | _ => coinsOf

namespace CoinsStack

open CoinsCache

def start (depth : ℕ) (db : CoinsDB) : CoinsStack where
  caches := List.replicate depth opened
  db := db

/-- The operation on the stack; none when an assertion fails. -/
def perform (stack : CoinsStack) : CacheOp → Option CoinsStack
  | .getCoins level txid => stack.atLevel (fun stack => some (stack.getCoins txid).2) level
  | .haveCoins level txid => stack.atLevel (fun stack => some (stack.haveCoins txid).2) level
  | .modifyCoins level txid edit =>
    stack.atLevel (fun stack => some (stack.modifyCoins txid edit)) level
  | .setBestBlock level hashBlock =>
    stack.atLevel (fun stack => some (stack.setBestBlock hashBlock)) level
  | .getBestBlock level => stack.atLevel (fun stack => some stack.getBestBlock.2) level
  | .batchWrite level mapCoins hashBlock =>
    stack.atLevel (fun stack => stack.batchWrite mapCoins hashBlock) level
  | .flush level => stack.atLevel flush level

def run (stack : CoinsStack) (ops : List CacheOp) : Option CoinsStack :=
  ops.foldlM perform stack

def Unknown (stack : CoinsStack) (level : ℕ) (txid : Hash256) : Prop :=
  ∀ cache ∈ stack.caches.take level, cache.cacheCoins.lookup txid = none

/-- What the users of caches see to: nothing is changed or dropped below a cache that
remembers it, edits do not look at pruned coins, and a batch comes from a cache that
was opened on the view. -/
def Allowed (stack : CoinsStack) : CacheOp → Prop
  | .modifyCoins level txid edit =>
    level < stack.caches.length ∧ RespectsPruned edit ∧ stack.Unknown level txid
  | .batchWrite level mapCoins _ =>
    ∀ txid entry, mapCoins.lookup txid = some entry → entry.dirty = true →
      stack.Unknown level txid ∧ Writable stack.db (stack.caches.drop level) txid entry
  | .flush level =>
    ∀ cache ∈ stack.caches[level]?, ∀ txid ∈ cache.cacheCoins, stack.Unknown level txid
  | _ => True

/-- All operations are allowed where they come. -/
def Disciplined : CoinsStack → List CacheOp → Prop
  | _, [] => True
  | stack, op :: ops =>
    stack.Allowed op ∧ ∀ next, stack.perform op = some next → Disciplined next ops

variable {db : CoinsDB} {stack : CoinsStack} {caches : List CoinsCache} {txid : Hash256}
  {touched : Hash256 → Prop} {update : Hash256 → Option LiveCoins}

theorem visible_drop : ∀ (level : ℕ) (caches : List CoinsCache),
      (∀ cache ∈ caches.take level, cache.cacheCoins.lookup txid = none) →
      visible db (caches.drop level) txid = visible db caches txid := by
  intro level
  induction level with
  | zero => exact fun caches _ => rfl
  | succ level ih =>
    intro caches hunknown
    cases caches with
    | nil => rfl
    | cons cache below =>
      rw [visible_of_none (hunknown cache (.head _))]
      exact ih below fun other hother => hunknown other (.tail _ hother)

/-- An operation at a level changes the whole stack as it changes the views from the
level on. -/
theorem atLevel_evolves {operation : CoinsStack → Option CoinsStack} :
    ∀ (level : ℕ) (caches : List CoinsCache), Consistent db caches →
      (Consistent db (caches.drop level) → ∃ rest, operation ⟨caches.drop level, db⟩ = some rest ∧
        Evolves touched update db (caches.drop level) rest.db rest.caches) →
      (∀ txid, touched txid → ∀ cache ∈ caches.take level, cache.cacheCoins.lookup txid = none) →
      ∃ rest, atLevel operation level ⟨caches, db⟩ = some rest ∧
        Evolves touched update db caches rest.db rest.caches := by
  intro level
  induction level with
  | zero => exact fun caches hcaches hoperation _ => hoperation hcaches
  | succ level ih =>
    intro caches hcaches hoperation hunknown
    cases caches with
    | nil => exact hoperation hcaches
    | cons cache below =>
      have hbelow : Consistent db below := by
        cases hcaches with
        | cons _ hbelow => exact hbelow
      obtain ⟨rest, hrest, hevolves⟩ := ih below hbelow hoperation fun other htouched known hknown =>
        hunknown other htouched known (by
          exact .tail _ hknown)
      refine ⟨⟨cache :: rest.caches, rest.db⟩, ?_,
        hevolves.lift hcaches fun other htouched => hunknown other htouched cache (by
          exact .head _)⟩
      unfold atLevel
      dsimp only
      rw [hrest]
      rfl

theorem getCoins_evolves (hcaches : Consistent db caches) (txid : Hash256) :
    Evolves (fun _ => False) update db caches ((getCoins ⟨caches, db⟩ txid).2).db
      ((getCoins ⟨caches, db⟩ txid).2).caches :=
  (hcaches.fetched txid).evolves update

theorem haveCoins_snd (stack : CoinsStack) (txid : Hash256) :
    (stack.haveCoins txid).2 = (stack.getCoins txid).2 := by
  unfold haveCoins
  dsimp only
  split <;> rfl

theorem withHashBlock_evolves {cache : CoinsCache} {below : List CoinsCache}
    (hcaches : Consistent db (cache :: below)) (hashBlock : Hash256) :
    Evolves (fun _ => False) update db (cache :: below) db ({ cache with hashBlock } :: below) := by
  cases hcaches with
  | cons hentries hbelow =>
    exact ⟨.cons hentries hbelow, fun _ htouched => htouched.elim, fun _ _ => rfl, fun _ _ => id⟩

theorem bestBlock_evolves (hcaches : Consistent db caches) :
    Evolves (fun _ => False) update db caches db (bestBlock db caches).2 := by
  induction hcaches with
  | nil => exact .refl .nil
  | @cons cache below hentries hbelow ih =>
    have hcaches := Consistent.cons hentries hbelow
    unfold bestBlock
    split
    · have hlift := ih.lift hcaches fun _ htouched => htouched.elim
      have hnext := @withHashBlock_evolves db update _ _ hlift.consistent (bestBlock db below).1
      exact ⟨hnext.consistent, fun _ htouched => htouched.elim,
        fun other hnot => (hnext.same other hnot).trans (hlift.same other hnot),
        fun other hnot hknown => hnext.knows other hnot (hlift.knows other hnot hknown)⟩
    exact .refl hcaches

structure Shows (stack : CoinsStack) (coinsOf : Hash256 → Option LiveCoins) : Prop where
  consistent : Consistent stack.db stack.caches
  visible : ∀ txid, visible stack.db stack.caches txid = coinsOf txid

variable {coinsOf : Hash256 → Option LiveCoins}

theorem Shows.untouched (hstack : Shows stack coinsOf)
    {operation : CoinsStack → Option CoinsStack} {level : ℕ}
    (hoperation : ∀ caches, Consistent stack.db caches →
      ∃ rest, operation ⟨caches, stack.db⟩ = some rest ∧
        Evolves (fun _ => False) (fun _ => none) stack.db caches rest.db rest.caches) :
    ∃ next, atLevel operation level stack = some next ∧ Shows next coinsOf := by
  obtain ⟨next, hnext, hevolves⟩ := atLevel_evolves level stack.caches hstack.consistent
    (hoperation _) fun _ htouched => htouched.elim
  exact ⟨next, hnext, hevolves.consistent, fun other =>
    (hevolves.same other not_false).trans (hstack.visible other)⟩

/-- An allowed operation goes through, and does to the stack what it does to the
map. -/
theorem Shows.perform (hstack : Shows stack coinsOf) (op : CacheOp) (hallowed : stack.Allowed op) :
    ∃ next, stack.perform op = some next ∧ Shows next (op.apply coinsOf) := by
  cases op with
  | getCoins level txid =>
    exact hstack.untouched fun caches hcaches => ⟨_, rfl, getCoins_evolves hcaches txid⟩
  | haveCoins level txid =>
    refine hstack.untouched fun caches hcaches => ⟨_, rfl, ?_⟩
    rw [haveCoins_snd]
    exact getCoins_evolves hcaches txid
  | setBestBlock level hashBlock =>
    refine hstack.untouched fun caches hcaches => ⟨_, rfl, ?_⟩
    cases hcaches with
    | nil => exact .refl .nil
    | cons hentries hbelow => exact withHashBlock_evolves (.cons hentries hbelow) hashBlock
  | getBestBlock level =>
    exact hstack.untouched fun caches hcaches => ⟨_, rfl, bestBlock_evolves hcaches⟩
  | modifyCoins level txid edit =>
    obtain ⟨hlevel, hedit, hunknown⟩ := hallowed
    obtain ⟨cache, below, hdrop⟩ : ∃ cache below, stack.caches.drop level = cache :: below :=
      List.exists_cons_of_ne_nil (by
        rw [Ne, List.drop_eq_nil_iff]
        exact Nat.not_le.mpr hlevel)
    obtain ⟨next, hnext, hevolves⟩ := @atLevel_evolves stack.db (fun other => other = txid)
      (fun other => edited edit (CoinsStack.visible stack.db (stack.caches.drop level) other))
      (fun stack => some (stack.modifyCoins txid edit)) level stack.caches hstack.consistent
      (fun hlower => ⟨_, rfl, by
        rw [hdrop] at hlower ⊢
        exact modifyCoins_evolves hedit hlower txid⟩)
      (by
        rintro other rfl
        exact hunknown)
    refine ⟨next, hnext, hevolves.consistent, fun other => ?_⟩
    show _ = Function.update coinsOf txid (edited edit (coinsOf txid)) other
    by_cases hsame : other = txid
    · subst hsame
      rw [Function.update_self, hevolves.shows other rfl, visible_drop level _ hunknown,
        hstack.visible]
    · rw [Function.update_of_ne hsame, hevolves.same other hsame, hstack.visible]
  | batchWrite level mapCoins hashBlock =>
    obtain ⟨next, hnext, hevolves⟩ := @atLevel_evolves stack.db (Written mapCoins)
      (newCoins mapCoins) (fun stack => stack.batchWrite mapCoins hashBlock) level stack.caches
      hstack.consistent
      (fun hlower => batchWrite_evolves hlower
        (fun txid entry hentry hdirty => (hallowed txid entry hentry hdirty).2) hashBlock)
      (by
        rintro other ⟨entry, hentry, hdirty⟩
        exact (hallowed other entry hentry hdirty).1)
    refine ⟨next, hnext, hevolves.consistent, fun other => ?_⟩
    show _ = match mapCoins.lookup other with
      | none => coinsOf other
      | some entry => if entry.dirty then entry.coins.live else coinsOf other
    cases hentry : mapCoins.lookup other with
    | none =>
      refine (hevolves.same other ?_).trans (hstack.visible other)
      rintro ⟨entry, hlookup, _⟩
      rw [hentry] at hlookup
      cases hlookup
    | some entry =>
      dsimp only
      split
      · rename_i hdirty
        rw [hevolves.shows other ⟨entry, hentry, hdirty⟩, newCoins_eq hentry]
      rename_i hclean
      refine (hevolves.same other ?_).trans (hstack.visible other)
      rintro ⟨known, hlookup, hdirty⟩
      rw [hentry] at hlookup
      cases hlookup
      exact hclean hdirty
  | flush level =>
    cases hdrop : stack.caches.drop level with
    | nil =>
      obtain ⟨next, hnext, hevolves⟩ := @atLevel_evolves stack.db (fun _ => False) (fun _ => none)
        CoinsStack.flush level stack.caches hstack.consistent
        (fun hlower => by
          rw [hdrop] at hlower ⊢
          exact ⟨_, rfl, .refl hlower⟩)
        fun _ htouched => htouched.elim
      exact ⟨next, hnext, hevolves.consistent, fun other =>
        (hevolves.same other not_false).trans (hstack.visible other)⟩
    | cons cache below =>
      have hget : cache ∈ stack.caches[level]? := by
        have hhead := congrArg List.head? hdrop
        rw [List.head?_drop] at hhead
        exact hhead
      obtain ⟨next, hnext, hevolves⟩ := @atLevel_evolves stack.db
        (fun other => other ∈ cache.cacheCoins)
        (CoinsStack.visible stack.db (stack.caches.drop level)) CoinsStack.flush level stack.caches
        hstack.consistent
        (fun hlower => by
          rw [hdrop] at hlower ⊢
          exact flush_evolves hlower)
        (fun other hmem => hallowed cache hget other hmem)
      refine ⟨next, hnext, hevolves.consistent, fun other => ?_⟩
      show _ = coinsOf other
      by_cases hmem : other ∈ cache.cacheCoins
      · rw [hevolves.shows other hmem, visible_drop level _ (hallowed cache hget other hmem),
          hstack.visible]
      exact (hevolves.same other hmem).trans (hstack.visible other)

theorem shows_start (depth : ℕ) (db : CoinsDB) : Shows (start depth db) db.coins := by
  induction depth with
  | zero => exact ⟨.nil, fun _ => rfl⟩
  | succ depth ih =>
    have hnone : ∀ txid, opened.cacheCoins.lookup txid = none := AList.lookup_empty
    refine ⟨.cons (fun txid entry hentry => ?_) ih.consistent, fun txid => ?_⟩
    · cases hentry
    exact (visible_of_none (hnone txid)).trans (ih.visible txid)

/-- The map after some operations. -/
def applyAll (coinsOf : Hash256 → Option LiveCoins) (ops : List CacheOp) :
    Hash256 → Option LiveCoins :=
  ops.foldl CacheOp.apply coinsOf

theorem Shows.run (hstack : Shows stack coinsOf) (ops : List CacheOp)
    (hops : Disciplined stack ops) :
    ∃ final, stack.run ops = some final ∧ Shows final (applyAll coinsOf ops) := by
  induction ops generalizing stack coinsOf with
  | nil => exact ⟨stack, rfl, hstack⟩
  | cons op ops ih =>
    obtain ⟨next, hnext, hshows⟩ := hstack.perform op hops.1
    obtain ⟨final, hfinal, hall⟩ := ih hshows (hops.2 next hnext)
    refine ⟨final, ?_, hall⟩
    unfold CoinsStack.run
    rw [List.foldlM_cons, hnext]
    exact hfinal

/-- What is found on top of the stack, pruned coins aside, is what the map holds. -/
theorem Shows.getCoins_eq (hstack : Shows stack coinsOf) (txid : Hash256) :
    (stack.getCoins txid).1.filter (fun coins => !coins.isPruned) =
      (coinsOf txid).map LiveCoins.coins := by
  have hfetched := hstack.consistent.fetched txid
  have hlive := hfetched.live
  have hclean := hfetched.clean
  rw [hstack.visible] at hlive
  show ((fetchCoins stack.db stack.caches txid).1).filter _ = _
  cases hfound : (fetchCoins stack.db stack.caches txid).1 with
  | none =>
    rw [hfound] at hlive
    rw [← hlive]
    rfl
  | some coins =>
    rw [hfound] at hlive hclean
    have hcoins : coins.live = coinsOf txid := hlive
    cases hpruned : coins.isPruned with
    | true =>
      rw [← hcoins, Coins.live_of_pruned hpruned, Option.filter_some, hpruned]
      rfl
    | false =>
      cases hmap : coinsOf txid with
      | none =>
        rw [hmap, Coins.live_eq_none_iff, hpruned] at hcoins
        cases hcoins
      | some found =>
        rw [hmap] at hcoins
        rw [Option.filter_some, hpruned, Option.map_some,
          Coins.live_eq_some (hclean coins rfl) hcoins]
        rfl

theorem Shows.haveCoins_eq (hstack : Shows stack coinsOf) (txid : Hash256) :
    (stack.haveCoins txid).1 = (coinsOf txid).isSome := by
  have hget := hstack.getCoins_eq txid
  have hclean := (hstack.consistent.fetched txid).clean
  unfold haveCoins
  dsimp only
  change ∀ coins ∈ (stack.getCoins txid).1, coins.cleanup = coins at hclean
  cases hfound : (stack.getCoins txid).1 with
  | none =>
    rw [hfound] at hget
    cases hmap : coinsOf txid with
    | none => rfl
    | some found =>
      rw [hmap] at hget
      cases hget
  | some coins =>
    rw [hfound] at hget hclean
    have hvout := Coins.vout_eq_nil_iff (hclean coins rfl)
    dsimp only
    rw [Option.filter_some] at hget
    cases hpruned : coins.isPruned with
    | true =>
      rw [hpruned] at hget
      rw [hvout.mpr hpruned]
      cases hmap : coinsOf txid with
      | none => rfl
      | some found =>
        rw [hmap] at hget
        cases hget
    | false =>
      have hne : coins.vout ≠ [] := fun hnil => by
        rw [hvout.mp hnil] at hpruned
        cases hpruned
      rw [hpruned] at hget
      cases hmap : coinsOf txid with
      | none =>
        rw [hmap] at hget
        cases hget
      | some found =>
        rw [decide_eq_true hne]
        rfl

end CoinsStack

end Amberchain.Storage

/-!
# Lookups and flushes of a stack

A stack on which only allowed operations are done is the map with the same edits:
on lookups, and in the database once all caches are flushed.
-/

namespace Amberchain.Storage

namespace CoinsStack

open CoinsCache

variable {db : CoinsDB} {stack rest : CoinsStack} {coinsOf : Hash256 → Option LiveCoins}

theorem length_batchWrite {mapCoins : CoinsMap} {hashBlock : Hash256}
    (hwritten : stack.batchWrite mapCoins hashBlock = some rest) :
    rest.caches.length = stack.caches.length := by
  unfold batchWrite at hwritten
  split at hwritten
  · rename_i hnil
    cases hwritten
    rfl
  rename_i cache below hcons
  obtain ⟨-, _, rfl⟩ := Option.map_eq_some_iff.mp hwritten
  rw [hcons]
  rfl

structure FlushedAt (level : ℕ) (caches caches' : List CoinsCache) : Prop where
  length : caches'.length = caches.length
  above : caches'.take level = caches.take level
  emptied : ∀ cache ∈ caches'[level]?, cache.cacheCoins = ∅

theorem flushedAt_flush (hflushed : flush stack = some rest) :
    FlushedAt 0 stack.caches rest.caches := by
  unfold flush at hflushed
  split at hflushed
  · rename_i hnil
    cases hflushed
    refine ⟨rfl, rfl, fun cache hcache => ?_⟩
    rw [hnil] at hcache
    cases hcache
  rename_i cache below hcons
  obtain ⟨written, hwritten, rfl⟩ := Option.map_eq_some_iff.mp hflushed
  refine ⟨?_, rfl, fun other hother => ?_⟩
  · rw [hcons, List.length_cons, List.length_cons, length_batchWrite hwritten]
  cases hother
  rfl

theorem flushedAt_atLevel : ∀ (level : ℕ) (stack : CoinsStack) {rest : CoinsStack},
      atLevel flush level stack = some rest → FlushedAt level stack.caches rest.caches := by
  intro level
  induction level with
  | zero => exact fun stack rest hflushed => flushedAt_flush hflushed
  | succ level ih =>
    intro stack rest hflushed
    unfold atLevel at hflushed
    split at hflushed
    · rename_i hnil
      have hflush := flushedAt_flush hflushed
      have hempty : rest.caches = [] := by
        rw [← List.length_eq_zero_iff, hflush.length, hnil]
        rfl
      refine ⟨hflush.length, ?_, fun cache hcache => ?_⟩
      · rw [hnil, hempty]
      rw [hempty] at hcache
      cases hcache
    rename_i cache below hcons
    obtain ⟨lower, hlower, rfl⟩ := Option.map_eq_some_iff.mp hflushed
    have hbelow := ih _ hlower
    refine ⟨?_, ?_, hbelow.emptied⟩
    · rw [hcons, List.length_cons, List.length_cons, hbelow.length]
    rw [hcons, List.take_succ_cons, List.take_succ_cons, hbelow.above]

theorem Shows.flushAll (hstack : Shows stack coinsOf) :
    ∀ levels : ℕ, ∃ done, flushAll levels stack = some done ∧ Shows done coinsOf ∧
      done.caches.length = stack.caches.length ∧
      ∀ cache ∈ done.caches.take levels, cache.cacheCoins = ∅ := by
  intro levels
  induction levels with
  | zero => exact ⟨stack, rfl, hstack, rfl, fun cache hcache => by cases hcache⟩
  | succ levels ih =>
    obtain ⟨upper, hupper, hshows, hlength, hempty⟩ := ih
    have hallowed : upper.Allowed (.flush levels) := by
      intro _ _ txid _ cache hcache
      rw [hempty cache hcache]
      exact AList.lookup_empty txid
    obtain ⟨done, hdone, hdoneShows⟩ := hshows.perform (.flush levels) hallowed
    have hflushed : FlushedAt levels upper.caches done.caches := flushedAt_atLevel levels upper hdone
    refine ⟨done, ?_, hdoneShows, hflushed.length.trans hlength, fun cache hcache => ?_⟩
    · show (CoinsStack.flushAll levels stack >>= fun rest => atLevel flush levels rest) = some done
      rw [hupper]
      exact hdone
    rw [List.take_add_one, hflushed.above, List.mem_append] at hcache
    cases hcache with
    | inl habove => exact hempty cache habove
    | inr hown => exact hflushed.emptied cache (Option.mem_toList.mp hown)

theorem visible_of_empty {caches : List CoinsCache}
    (hempty : ∀ cache ∈ caches, cache.cacheCoins = ∅) (txid : Hash256) :
    visible db caches txid = db.coins txid := by
  have hdrop := @visible_drop db txid caches.length caches fun cache hcache => by
    rw [hempty cache (List.mem_of_mem_take hcache)]
    exact AList.lookup_empty txid
  rw [← hdrop, List.drop_length]
  rfl

structure BehavesLike (stack : CoinsStack) (coinsOf : Hash256 → Option LiveCoins) : Prop where
  getCoins : ∀ txid, (stack.getCoins txid).1.filter (fun coins => !coins.isPruned) =
    (coinsOf txid).map LiveCoins.coins
  haveCoins : ∀ txid, (stack.haveCoins txid).1 = (coinsOf txid).isSome
  flushAll : ∃ done, CoinsStack.flushAll stack.caches.length stack = some done ∧
    done.db.coins = coinsOf

theorem Shows.behavesLike (hstack : Shows stack coinsOf) : BehavesLike stack coinsOf where
  getCoins := hstack.getCoins_eq
  haveCoins := hstack.haveCoins_eq
  flushAll := by
    obtain ⟨done, hdone, hshows, hlength, hempty⟩ := hstack.flushAll stack.caches.length
    refine ⟨done, hdone, funext fun txid => ?_⟩
    rw [← hlength, List.take_length] at hempty
    calc
      done.db.coins txid = CoinsStack.visible done.db done.caches txid :=
        (visible_of_empty hempty txid).symm
      _ = coinsOf txid := hshows.visible txid

/-- However caches are stacked and their operations interleaved, as long as nothing is
changed below a cache that remembers it, no assertion fails and the stack is the
map with the same edits. -/
theorem stack_behaves_like_map (db : CoinsDB) (depth : ℕ) (ops : List CacheOp)
    (hops : Disciplined (start depth db) ops) : ∃ final, (start depth db).run ops = some final ∧
      BehavesLike final (applyAll db.coins ops) := by
  obtain ⟨final, hfinal, hshows⟩ := (shows_start depth db).run ops hops
  exact ⟨final, hfinal, hshows.behavesLike⟩

def emptyDB : CoinsDB where
  coins := fun _ => none
  bestBlock := 0

def paidCoins : Coins where
  coinBase := false
  vout := [⟨5, []⟩]
  height := 1
  version := 1

theorem stack_behaves_like_map_paid :
    ∃ final, (start 2 emptyDB).run [.modifyCoins 0 7 fun _ => paidCoins, .getCoins 0 7] =
        some final ∧ BehavesLike final
        (applyAll emptyDB.coins [.modifyCoins 0 7 fun _ => paidCoins, .getCoins 0 7]) :=
  stack_behaves_like_map emptyDB 2 _
    ⟨⟨by decide, respectsPruned_const paidCoins, fun cache hcache => by cases hcache⟩,
      fun _ _ => ⟨trivial, fun _ _ => trivial⟩⟩

def paidDB : CoinsDB where
  coins := fun txid => if txid = 7 then some ⟨paidCoins, by decide, by decide⟩ else none
  bestBlock := 0

def spendAndLook : List CacheOp :=
  [.modifyCoins 0 7 fun coins => { coins with vout := [] },
    .modifyCoins 0 7 fun coins => if coins.height = 1 then paidCoins else coins]

/-- Coins changed below a cache that remembers them make the assertion fail later, and an
edit that looks at the height of spent coins tells a stack from the map. -/
theorem stack_not_map :
    (start 2 emptyDB).run [.modifyCoins 1 7 fun _ => paidCoins, .getCoins 0 7, .flush 1,
        .modifyCoins 0 7 fun _ => paidCoins, .flush 0] = none ∧
      ((start 1 paidDB).run spendAndLook).map (fun stack => (stack.haveCoins 7).1) = some true ∧
      (applyAll paidDB.coins spendAndLook 7).isSome = false := by
  decide +kernel

end CoinsStack

end Amberchain.Storage
