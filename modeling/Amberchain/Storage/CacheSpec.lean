import Amberchain.Storage.Coins

/-!
# What a stack of caches shows

A stack stands for one map from txids to coins that are there.  Its entries fit
what lies below them: a fresh entry has nothing below, a clean one repeats what is
below, and the parent knows every entry that is not fresh.
-/

namespace Amberchain.Storage

namespace CoinsStack

open CoinsCache

def visible (db : CoinsDB) : List CoinsCache → Hash256 → Option LiveCoins
  | [], txid => db.coins txid
  | cache :: below, txid =>
    match cache.cacheCoins.lookup txid with
    | some entry => entry.coins.live
    | none => visible db below txid

def Knows : List CoinsCache → Hash256 → Prop
  | [], _ => True
  | cache :: _, txid => ∃ entry, cache.cacheCoins.lookup txid = some entry

structure EntryFits (db : CoinsDB) (below : List CoinsCache) (txid : Hash256)
    (entry : CoinsCacheEntry) : Prop where
  clean : entry.coins.cleanup = entry.coins
  fresh : entry.fresh = true → visible db below txid = none
  unchanged : entry.dirty = false → entry.coins.live = visible db below txid
  known : entry.fresh = false → Knows below txid

/-- All entries fit. -/
inductive Consistent (db : CoinsDB) : List CoinsCache → Prop where
  | nil : Consistent db []
  | cons {cache : CoinsCache} {below : List CoinsCache}
      (hentries : ∀ txid entry, cache.cacheCoins.lookup txid = some entry →
        EntryFits db below txid entry)
      (hbelow : Consistent db below) : Consistent db (cache :: below)

variable {db db' : CoinsDB} {cache : CoinsCache} {below below' caches : List CoinsCache}
  {txid : Hash256} {entry : CoinsCacheEntry} {coins : Coins}

theorem visible_of_lookup (hentry : cache.cacheCoins.lookup txid = some entry) :
    visible db (cache :: below) txid = entry.coins.live := by
  show (match cache.cacheCoins.lookup txid with
    | some entry => entry.coins.live
    | none => visible db below txid) = _
  rw [hentry]

theorem visible_of_none (hnone : cache.cacheCoins.lookup txid = none) :
    visible db (cache :: below) txid = visible db below txid := by
  show (match cache.cacheCoins.lookup txid with
    | some entry => entry.coins.live
    | none => visible db below txid) = _
  rw [hnone]

theorem visible_put (other : Hash256) : visible db (cache.put txid entry :: below) other =
      if other = txid then entry.coins.live else visible db (cache :: below) other := by
  by_cases hsame : other = txid
  · rw [if_pos hsame, hsame]
    exact visible_of_lookup (AList.lookup_insert _)
  rw [if_neg hsame]
  show (match (cache.cacheCoins.insert txid entry).lookup other with
    | some entry => entry.coins.live
    | none => visible db below other) = _
  rw [AList.lookup_insert_ne hsame]
  rfl

/-- Two stacks of views differ under touched txids only, where the second one shows
new coins. -/
structure Evolves (touched : Hash256 → Prop) (update : Hash256 → Option LiveCoins)
    (db : CoinsDB) (caches : List CoinsCache) (db' : CoinsDB) (caches' : List CoinsCache) :
    Prop where
  consistent : Consistent db' caches'
  shows : ∀ txid, touched txid → visible db' caches' txid = update txid
  same : ∀ txid, ¬ touched txid → visible db' caches' txid = visible db caches txid
  knows : ∀ txid, ¬ touched txid → Knows caches txid → Knows caches' txid

variable {touched : Hash256 → Prop} {update : Hash256 → Option LiveCoins}

theorem EntryFits.evolves (hentry : EntryFits db below txid entry)
    (hbelow : Evolves touched update db below db' below') (hnot : ¬ touched txid) :
    EntryFits db' below' txid entry where
  clean := hentry.clean
  fresh := fun hfresh => (hbelow.same txid hnot).trans (hentry.fresh hfresh)
  unchanged := fun hclean => (hentry.unchanged hclean).trans (hbelow.same txid hnot).symm
  known := fun hfresh => hbelow.knows txid hnot (hentry.known hfresh)

/-- A change below a cache that has no entry under the touched txids is one of the
whole stack. -/
theorem Evolves.lift (hbelow : Evolves touched update db below db' below')
    (hcache : Consistent db (cache :: below))
    (hnone : ∀ txid, touched txid → cache.cacheCoins.lookup txid = none) :
    Evolves touched update db (cache :: below) db' (cache :: below') := by
  cases hcache with
  | cons hentries _ =>
    refine ⟨.cons (fun txid entry hentry => ?_) hbelow.consistent, ?_, ?_, fun _ _ => id⟩
    · refine (hentries txid entry hentry).evolves hbelow fun htouched => ?_
      rw [hnone txid htouched] at hentry
      cases hentry
    · intro txid htouched
      rw [visible_of_none (hnone txid htouched)]
      exact hbelow.shows txid htouched
    intro txid hnot
    cases hentry : cache.cacheCoins.lookup txid with
    | none =>
      rw [visible_of_none hentry, visible_of_none hentry]
      exact hbelow.same txid hnot
    | some entry => rw [visible_of_lookup hentry, visible_of_lookup hentry]

theorem Evolves.refl (hcaches : Consistent db caches) :
    Evolves (fun _ => False) update db caches db caches :=
  ⟨hcaches, fun _ htouched => htouched.elim, fun _ _ => rfl, fun _ _ => id⟩

theorem fits_fetchedEntry (hclean : coins.cleanup = coins)
    (hlive : coins.live = visible db below txid) (hknows : Knows below txid) :
    EntryFits db below txid (fetchedEntry coins) where
  clean := hclean
  fresh := fun hpruned => hlive.symm.trans (Coins.live_of_pruned hpruned)
  unchanged := fun _ => hlive
  known := fun _ => hknows

structure Fetched (db : CoinsDB) (caches : List CoinsCache) (txid : Hash256)
    (found : Option Coins) (caches' : List CoinsCache) : Prop where
  evolves : ∀ update, Evolves (fun _ => False) update db caches db caches'
  live : found.bind Coins.live = visible db caches txid
  clean : ∀ coins ∈ found, coins.cleanup = coins
  known : found.isSome = true → Knows caches' txid

theorem Consistent.fetched (hcaches : Consistent db caches) (txid : Hash256) :
    Fetched db caches txid (fetchCoins db caches txid).1 (fetchCoins db caches txid).2 := by
  induction hcaches with
  | nil =>
    refine ⟨fun _ => .refl .nil, ?_, ?_, fun _ => trivial⟩
    · show ((db.coins txid).map LiveCoins.coins).bind Coins.live = db.coins txid
      cases db.coins txid with
      | none => rfl
      | some found => exact found.live_coins
    intro coins hcoins
    obtain ⟨found, _, rfl⟩ := Option.map_eq_some_iff.mp hcoins
    exact found.clean
  | @cons cache below hentries hbelow ih =>
    have hcaches := Consistent.cons hentries hbelow
    unfold fetchCoins
    cases hentry : cache.cacheCoins.lookup txid with
    | some entry =>
      refine ⟨fun _ => .refl hcaches, (visible_of_lookup hentry).symm, ?_, fun _ =>
        ⟨entry, hentry⟩⟩
      intro coins hcoins
      cases hcoins
      exact (hentries txid entry hentry).clean
    | none =>
      cases hfound : fetchCoins db below txid with
      | mk found below' =>
        rw [hfound] at ih
        cases found with
        | none =>
          refine ⟨fun update => (ih.evolves update).lift hcaches fun _ htouched => htouched.elim,
            ?_, fun coins hcoins => ?_, fun hsome => ?_⟩
          · rw [visible_of_none hentry]
            exact ih.live
          · cases hcoins
          · cases hsome
        | some coins =>
          have hclean : coins.cleanup = coins := ih.clean coins rfl
          have hknows : Knows below' txid := ih.known rfl
          have hlive : coins.live = visible db below txid := ih.live
          have hsame : coins.live = visible db below' txid :=
            hlive.trans ((ih.evolves fun _ => none).same txid not_false).symm
          refine ⟨fun update => ⟨.cons (fun other known hknown => ?_)
              (ih.evolves update).consistent, fun _ htouched => htouched.elim, fun other _ => ?_,
              fun other _ hknown => ?_⟩, ?_, ?_, fun _ => ⟨_, AList.lookup_insert _⟩⟩
          · by_cases heq : other = txid
            · subst heq
              have hput : (cache.cacheCoins.insert other (fetchedEntry coins)).lookup other =
                  some known := hknown
              rw [AList.lookup_insert] at hput
              cases hput
              exact fits_fetchedEntry hclean hsame hknows
            have hput : (cache.cacheCoins.insert txid (fetchedEntry coins)).lookup other =
                some known := hknown
            rw [AList.lookup_insert_ne heq] at hput
            exact (hentries other known hput).evolves (ih.evolves update) not_false
          · rw [visible_put]
            by_cases heq : other = txid
            · rw [if_pos heq, heq, visible_of_none hentry]
              exact hlive
            rw [if_neg heq]
            exact ((ih.evolves update).lift hcaches fun _ htouched => htouched.elim).same other
              not_false
          · obtain ⟨known, hlookup⟩ := hknown
            by_cases heq : other = txid
            · rw [heq]
              exact ⟨_, AList.lookup_insert _⟩
            · exact ⟨known, (AList.lookup_insert_ne heq).trans hlookup⟩
          · rw [visible_of_none hentry]
            exact hlive
          intro other hother
          cases hother
          exact hclean

end CoinsStack

end Amberchain.Storage

/-!
# Edits, batch writes and flushes

What each operation on a cache does to the map that the stack stands for.  The
assertion of `BatchWrite` holds as long as the parent knows what is not fresh.
-/

namespace Amberchain.Storage

namespace CoinsStack

open CoinsCache

variable {db : CoinsDB} {cache : CoinsCache} {below caches : List CoinsCache}
  {txid : Hash256} {entry : CoinsCacheEntry} {coins : Coins} {mapCoins cacheCoins : CoinsMap}

def RespectsPruned (edit : Coins → Coins) : Prop :=
  ∀ first second : Coins, first.isPruned = true → second.isPruned = true →
    (edit first).live = (edit second).live

theorem respectsPruned_const (coins : Coins) : RespectsPruned fun _ => coins :=
  fun _ _ _ _ => rfl

def edited (edit : Coins → Coins) (found : Option LiveCoins) : Option LiveCoins :=
  (edit ((found.map LiveCoins.coins).getD .empty)).live

theorem edited_eq {edit : Coins → Coins} (hedit : RespectsPruned edit)
    {found : Option LiveCoins} (hclean : coins.cleanup = coins) (hlive : coins.live = found) :
    (edit coins).live = edited edit found := by
  cases found with
  | none =>
    exact hedit coins .empty (Coins.live_eq_none_iff.mp hlive) Coins.isPruned_empty
  | some found =>
    unfold edited
    rw [Option.map_some, Option.getD_some, Coins.live_eq_some hclean hlive]

theorem fits_dirty {fresh : Bool} (hclean : coins.cleanup = coins)
    (hfresh : fresh = true → visible db below txid = none)
    (hknown : fresh = false → Knows below txid) :
    EntryFits db below txid ⟨coins, true, fresh⟩ where
  clean := hclean
  fresh := hfresh
  unchanged := fun hunchanged => absurd hunchanged (by simp)
  known := hknown

/-- The entry that `ModifyCoins` starts from fits, and shows what the stack showed. -/
theorem Consistent.entryToModify (hcaches : Consistent db (cache :: below)) (txid : Hash256) :
    (∀ update, Evolves (fun _ => False) update db below db (entryToModify db cache below txid).2) ∧
      EntryFits db (entryToModify db cache below txid).2 txid
        (entryToModify db cache below txid).1 ∧
      (entryToModify db cache below txid).1.coins.live = visible db (cache :: below) txid := by
  cases hcaches with
  | cons hentries hbelow =>
    unfold CoinsStack.entryToModify
    cases hentry : cache.cacheCoins.lookup txid with
    | some entry =>
      exact ⟨fun _ => .refl hbelow, hentries txid entry hentry, (visible_of_lookup hentry).symm⟩
    | none =>
      have hfetched := hbelow.fetched txid
      rw [visible_of_none hentry]
      cases hfound : fetchCoins db below txid with
      | mk found below' =>
        rw [hfound] at hfetched
        have hsame : visible db below' txid = visible db below txid :=
          (hfetched.evolves fun _ => none).same txid not_false
        cases found with
        | none =>
          have hnone : visible db below txid = none := hfetched.live.symm
          refine ⟨hfetched.evolves, ⟨rfl, fun _ => ?_, fun _ => ?_, fun hfresh => ?_⟩, ?_⟩
          · rw [hsame, hnone]
          · rw [hsame, hnone]
            exact Coins.live_of_pruned Coins.isPruned_empty
          · cases hfresh
          rw [hnone]
          exact Coins.live_of_pruned Coins.isPruned_empty
        | some coins =>
          have hlive : coins.live = visible db below txid := hfetched.live
          exact ⟨hfetched.evolves, fits_fetchedEntry (hfetched.clean coins rfl)
            (hlive.trans hsame.symm) (hfetched.known rfl), hlive⟩

/-- An edit changes the coins under its txid, as it would in the map. -/
theorem modifyCoins_evolves {edit : Coins → Coins} (hedit : RespectsPruned edit)
    (hcaches : Consistent db (cache :: below)) (txid : Hash256) :
    Evolves (fun other => other = txid)
      (fun other => edited edit (visible db (cache :: below) other)) db (cache :: below) db
      (modifyCoins ⟨cache :: below, db⟩ txid edit).caches := by
  obtain ⟨hevolves, hfits, hlive⟩ := hcaches.entryToModify txid
  unfold modifyCoins
  dsimp only
  cases hmodify : CoinsStack.entryToModify db cache below txid with
  | mk entry below' =>
    rw [hmodify] at hevolves hfits hlive
    have hbelow := hevolves fun _ => none
    have hedited := edited_eq hedit hfits.clean hlive
    have hentries : ∀ other known, cache.cacheCoins.lookup other = some known →
        EntryFits db below' other known := by
      intro other known hknown
      cases hcaches with
      | cons hold _ => exact (hold other known hknown).evolves hbelow not_false
    have hsame : ∀ other, visible db (cache :: below') other =
        visible db (cache :: below) other := fun other =>
      (hbelow.lift hcaches fun _ htouched => htouched.elim).same other not_false
    split
    · -- the parent has nothing to be told of
      rename_i hdrop
      rw [Bool.and_eq_true] at hdrop
      refine ⟨.cons (fun other known hknown => ?_) hbelow.consistent, ?_, ?_, ?_⟩
      · have hne : other ≠ txid := by
          rintro rfl
          rw [AList.lookup_erase] at hknown
          cases hknown
        rw [AList.lookup_erase_ne hne] at hknown
        exact hentries other known hknown
      · rintro other rfl
        rw [visible_of_none (AList.lookup_erase _ _), hfits.fresh hdrop.1, ← hedited]
        rw [Coins.isPruned_cleanup] at hdrop
        exact (Coins.live_of_pruned hdrop.2).symm
      · intro other hne
        rw [← hsame]
        show (match (cache.cacheCoins.erase txid).lookup other with
          | some entry => entry.coins.live
          | none => visible db below' other) = _
        rw [AList.lookup_erase_ne hne]
        rfl
      rintro other hne ⟨known, hknown⟩
      exact ⟨known, (AList.lookup_erase_ne hne).trans hknown⟩
    refine ⟨.cons (fun other known hknown => ?_) hbelow.consistent, ?_, ?_, ?_⟩
    · by_cases hsameTxid : other = txid
      · subst hsameTxid
        rw [AList.lookup_insert] at hknown
        cases hknown
        exact fits_dirty Coins.cleanup_cleanup hfits.fresh hfits.known
      rw [AList.lookup_insert_ne hsameTxid] at hknown
      exact hentries other known hknown
    · rintro other rfl
      rw [visible_of_lookup (AList.lookup_insert _), Coins.live_cleanup, hedited]
    · intro other hne
      rw [← hsame]
      exact (visible_put other).trans (if_neg hne)
    rintro other hne ⟨known, hknown⟩
    exact ⟨known, (AList.lookup_insert_ne hne).trans hknown⟩

def wrote (ours : Option CoinsCacheEntry) (entry : CoinsCacheEntry) : Option CoinsCacheEntry :=
  if !entry.dirty then ours
  else
    match ours with
    | none => if entry.coins.isPruned then none else some ⟨entry.coins, true, true⟩
    | some ours =>
      if ours.fresh && entry.coins.isPruned then none else some ⟨entry.coins, true, ours.fresh⟩

def Asserted (ours : Option CoinsCacheEntry) (entry : CoinsCacheEntry) : Prop :=
  entry.dirty = true → ours = none → entry.coins.isPruned = false → entry.fresh = true

theorem writeEntry_spec (hasserted : Asserted (cacheCoins.lookup txid) entry) :
    ∃ written, writeEntry cacheCoins txid entry = some written ∧
      written.lookup txid = wrote (cacheCoins.lookup txid) entry ∧
      ∀ other, other ≠ txid → written.lookup other = cacheCoins.lookup other := by
  unfold writeEntry wrote
  cases hdirty : entry.dirty with
  | false => exact ⟨cacheCoins, rfl, rfl, fun _ _ => rfl⟩
  | true =>
    rw [Bool.not_true, if_neg Bool.false_ne_true]
    cases hours : cacheCoins.lookup txid with
    | none =>
      cases hpruned : entry.coins.isPruned with
      | true => exact ⟨cacheCoins, rfl, hours, fun _ _ => rfl⟩
      | false =>
        rw [if_pos (hasserted hdirty hours hpruned)]
        exact ⟨_, rfl, AList.lookup_insert _, fun other hne => AList.lookup_insert_ne hne⟩
    | some ours =>
      dsimp only
      split
      · exact ⟨_, rfl, AList.lookup_erase _ _, fun other hne => AList.lookup_erase_ne hne⟩
      exact ⟨_, rfl, AList.lookup_insert _, fun other hne => AList.lookup_insert_ne hne⟩

/-- The loop of `BatchWrite` writes every entry once. -/
theorem foldlM_writeEntry {entries : List (Sigma fun _ : Hash256 => CoinsCacheEntry)}
    (hkeys : entries.NodupKeys) : ∀ cacheCoins : CoinsMap,
      (∀ entry ∈ entries, Asserted (cacheCoins.lookup entry.1) entry.2) →
      ∃ written, entries.foldlM (fun cacheCoins entry => writeEntry cacheCoins entry.1 entry.2)
          cacheCoins = some written ∧ ∀ txid, written.lookup txid =
          match entries.dlookup txid with
          | none => cacheCoins.lookup txid
          | some entry => wrote (cacheCoins.lookup txid) entry := by
  induction entries with
  | nil => exact fun cacheCoins _ => ⟨cacheCoins, rfl, fun _ => rfl⟩
  | cons entry entries ih =>
    intro cacheCoins hasserted
    obtain ⟨hnotMem, hrest⟩ := List.nodupKeys_cons.mp hkeys
    obtain ⟨next, hnext, hown, hothers⟩ := writeEntry_spec (hasserted entry (.head _))
    have hother : ∀ other ∈ entries, other.1 ≠ entry.1 := by
      intro other hmem heq
      exact hnotMem (heq ▸ List.mem_keys_of_mem hmem)
    obtain ⟨written, hwritten, hlookup⟩ := ih hrest next fun other hmem => by
      rw [hothers other.1 (hother other hmem)]
      exact hasserted other (.tail _ hmem)
    refine ⟨written, ?_, fun txid => ?_⟩
    · rw [List.foldlM_cons, hnext]
      exact hwritten
    rw [hlookup]
    by_cases hsame : txid = entry.1
    · subst hsame
      rw [List.dlookup_eq_none.mpr hnotMem, List.dlookup_cons_eq]
      exact hown
    rw [List.dlookup_cons_ne _ _ hsame, hothers txid hsame]

/-- A dirty entry that a view can be told of. -/
structure Writable (db : CoinsDB) (caches : List CoinsCache) (txid : Hash256)
    (entry : CoinsCacheEntry) : Prop where
  clean : entry.coins.cleanup = entry.coins
  unknown : ∀ cache below, caches = cache :: below → cache.cacheCoins.lookup txid = none →
    visible db below txid = none ∧ (entry.coins.isPruned = false → entry.fresh = true)

def Written (mapCoins : CoinsMap) (txid : Hash256) : Prop :=
  ∃ entry, mapCoins.lookup txid = some entry ∧ entry.dirty = true

def newCoins (mapCoins : CoinsMap) (txid : Hash256) : Option LiveCoins :=
  (mapCoins.lookup txid).bind fun entry => entry.coins.live

theorem newCoins_eq (hentry : mapCoins.lookup txid = some entry) :
    newCoins mapCoins txid = entry.coins.live := by
  unfold newCoins
  rw [hentry]
  rfl

/-- The database takes the dirty entries over. -/
theorem coins_batchWrite (db : CoinsDB) (mapCoins : CoinsMap) (hashBlock txid : Hash256) :
    (db.batchWrite mapCoins hashBlock).coins txid =
      match mapCoins.lookup txid with
      | none => db.coins txid
      | some entry => if entry.dirty then entry.coins.live else db.coins txid := by
  have hloop : ∀ (entries : List (Sigma fun _ : Hash256 => CoinsCacheEntry)),
      entries.NodupKeys → ∀ db : CoinsDB,
      (entries.foldl (fun db entry =>
        if entry.2.dirty then db.writeCoins entry.1 entry.2.coins else db) db).coins txid =
        match entries.dlookup txid with
        | none => db.coins txid
        | some entry => if entry.dirty then entry.coins.live else db.coins txid := by
    intro entries
    induction entries with
    | nil => exact fun _ _ => rfl
    | cons entry entries ih =>
      intro hkeys db
      obtain ⟨hnotMem, hrest⟩ := List.nodupKeys_cons.mp hkeys
      rw [List.foldl_cons, ih hrest]
      by_cases hsame : txid = entry.1
      · subst hsame
        rw [List.dlookup_eq_none.mpr hnotMem, List.dlookup_cons_eq]
        dsimp only
        split
        · exact Function.update_self ..
        · rfl
      rw [List.dlookup_cons_ne _ _ hsame]
      have hkeep : (if entry.2.dirty then db.writeCoins entry.1 entry.2.coins else db).coins
          txid = db.coins txid := by
        split
        · exact Function.update_of_ne hsame ..
        · rfl
      rw [hkeep]
  have hsame := hloop mapCoins.entries mapCoins.nodupKeys db
  unfold CoinsDB.batchWrite
  split
  · exact hsame
  exact hsame

/-- A batch write of entries that the view can be told of goes through, and shows
their coins. -/
theorem batchWrite_evolves (hcaches : Consistent db caches)
    (hwritable : ∀ txid entry, mapCoins.lookup txid = some entry → entry.dirty = true →
      Writable db caches txid entry) (hashBlock : Hash256) :
    ∃ rest, batchWrite ⟨caches, db⟩ mapCoins hashBlock = some rest ∧
      Evolves (Written mapCoins) (newCoins mapCoins) db caches rest.db rest.caches := by
  cases hcaches with
  | nil =>
    refine ⟨_, rfl, .nil, ?_, ?_, fun _ _ => id⟩
    · rintro txid ⟨entry, hentry, hdirty⟩
      show (db.batchWrite mapCoins hashBlock).coins txid = _
      rw [coins_batchWrite, hentry, newCoins_eq hentry]
      exact if_pos hdirty
    intro txid hnot
    show (db.batchWrite mapCoins hashBlock).coins txid = db.coins txid
    rw [coins_batchWrite]
    cases hentry : mapCoins.lookup txid with
    | none => rfl
    | some entry => exact if_neg fun hdirty => hnot ⟨entry, hentry, hdirty⟩
  | @cons cache below hentries hbelow =>
    have hasserted : ∀ entry ∈ mapCoins.entries,
        Asserted (cache.cacheCoins.lookup entry.1) entry.2 := by
      intro entry hmem hdirty hnone hpruned
      have hlookup : mapCoins.lookup entry.1 = some entry.2 := AList.mem_lookup_iff.mpr hmem
      exact ((hwritable entry.1 entry.2 hlookup hdirty).unknown cache below rfl hnone).2 hpruned
    obtain ⟨written, hwritten, hlookup⟩ :=
      foldlM_writeEntry mapCoins.nodupKeys cache.cacheCoins hasserted
    have hwrote : ∀ {txid entry}, mapCoins.lookup txid = some entry → entry.dirty = true →
        written.lookup txid = wrote (cache.cacheCoins.lookup txid) entry := by
      intro txid entry hentry _
      rw [hlookup, show mapCoins.entries.dlookup txid = some entry from hentry]
    have hkept : ∀ {txid}, ¬ Written mapCoins txid →
        written.lookup txid = cache.cacheCoins.lookup txid := by
      intro txid hnot
      rw [hlookup]
      cases hentry : mapCoins.entries.dlookup txid with
      | none => rfl
      | some entry =>
        have hclean : entry.dirty = false :=
          Bool.eq_false_iff.mpr fun hdirty => hnot ⟨entry, hentry, hdirty⟩
        dsimp only
        unfold wrote
        rw [hclean]
        rfl
    refine ⟨⟨⟨hashBlock, written⟩ :: below, db⟩, ?_, .cons ?_ hbelow, ?_, ?_, ?_⟩
    · unfold batchWrite
      dsimp only
      rw [hwritten]
      rfl
    · intro txid known hknown
      by_cases htouched : Written mapCoins txid
      · obtain ⟨entry, hentry, hdirty⟩ := htouched
        have hwritableEntry := hwritable txid entry hentry hdirty
        rw [hwrote hentry hdirty] at hknown
        unfold wrote at hknown
        rw [hdirty, Bool.not_true, if_neg Bool.false_ne_true] at hknown
        cases hours : cache.cacheCoins.lookup txid with
        | none =>
          rw [hours] at hknown
          dsimp only at hknown
          split at hknown
          · cases hknown
          cases hknown
          exact fits_dirty hwritableEntry.clean
            (fun _ => (hwritableEntry.unknown cache below rfl hours).1)
            fun hfresh => absurd hfresh (by simp)
        | some ours =>
          have hfits := hentries txid ours hours
          rw [hours] at hknown
          dsimp only at hknown
          split at hknown
          · cases hknown
          cases hknown
          exact fits_dirty hwritableEntry.clean hfits.fresh hfits.known
      rw [hkept htouched] at hknown
      exact hentries txid known hknown
    · rintro txid ⟨entry, hentry, hdirty⟩
      rw [newCoins_eq hentry]
      have hresult := hwrote hentry hdirty
      unfold wrote at hresult
      rw [hdirty, Bool.not_true, if_neg Bool.false_ne_true] at hresult
      cases hours : cache.cacheCoins.lookup txid with
      | none =>
        rw [hours] at hresult
        dsimp only at hresult
        split at hresult
        · rename_i hpruned
          rw [visible_of_none hresult, Coins.live_of_pruned hpruned]
          exact ((hwritable txid entry hentry hdirty).unknown cache below rfl hours).1
        · exact @visible_of_lookup db ⟨hashBlock, written⟩ below txid ⟨entry.coins, true, _⟩ hresult
      | some ours =>
        rw [hours] at hresult
        dsimp only at hresult
        split at hresult
        · rename_i hdrop
          rw [Bool.and_eq_true] at hdrop
          rw [visible_of_none hresult, Coins.live_of_pruned hdrop.2]
          exact (hentries txid ours hours).fresh hdrop.1
        · exact @visible_of_lookup db ⟨hashBlock, written⟩ below txid ⟨entry.coins, true, _⟩ hresult
    · intro txid hnot
      show (match written.lookup txid with
        | some entry => entry.coins.live
        | none => visible db below txid) = _
      rw [hkept hnot]
      rfl
    rintro txid hnot ⟨known, hknown⟩
    exact ⟨known, (hkept hnot).trans hknown⟩

/-- A flush empties a cache and leaves what the stack shows. -/
theorem flush_evolves (hcaches : Consistent db (cache :: below)) :
    ∃ rest, flush ⟨cache :: below, db⟩ = some rest ∧
      Evolves (fun txid => txid ∈ cache.cacheCoins) (visible db (cache :: below)) db
        (cache :: below) rest.db rest.caches := by
  cases hcaches with
  | cons hentries hbelow =>
    have hwritable : ∀ txid entry, cache.cacheCoins.lookup txid = some entry →
        entry.dirty = true → Writable db below txid entry := by
      intro txid entry hentry _
      have hfits := hentries txid entry hentry
      refine ⟨hfits.clean, ?_⟩
      rintro parent rest rfl hnone
      have hfresh : entry.fresh = true := by
        by_contra hnot
        obtain ⟨known, hknown⟩ := hfits.known (Bool.eq_false_iff.mpr hnot)
        rw [hnone] at hknown
        cases hknown
      exact ⟨(visible_of_none hnone).symm.trans (hfits.fresh hfresh), fun _ => hfresh⟩
    obtain ⟨rest, hrest, hevolves⟩ := batchWrite_evolves hbelow hwritable cache.hashBlock
    have hshows : ∀ txid, visible rest.db rest.caches txid = visible db (cache :: below) txid := by
      intro txid
      cases hentry : cache.cacheCoins.lookup txid with
      | none =>
        rw [visible_of_none hentry]
        refine hevolves.same txid ?_
        rintro ⟨entry, hlookup, _⟩
        rw [hentry] at hlookup
        cases hlookup
      | some entry =>
        rw [visible_of_lookup hentry]
        cases hdirty : entry.dirty with
        | true =>
          rw [hevolves.shows txid ⟨entry, hentry, hdirty⟩, newCoins_eq hentry]
        | false =>
          rw [(hentries txid entry hentry).unchanged hdirty]
          refine hevolves.same txid ?_
          rintro ⟨other, hlookup, hother⟩
          rw [hentry] at hlookup
          cases hlookup
          rw [hdirty] at hother
          cases hother
    refine ⟨⟨{ cache with cacheCoins := ∅ } :: rest.caches, rest.db⟩, ?_,
      .cons (fun txid entry hentry => ?_) hevolves.consistent, fun txid _ => ?_, fun txid _ => ?_,
      fun txid hnot hknown => ?_⟩
    · unfold flush
      dsimp only
      rw [hrest]
      rfl
    · cases hentry
    · exact (visible_of_none (AList.lookup_empty txid)).trans (hshows txid)
    · exact (visible_of_none (AList.lookup_empty txid)).trans (hshows txid)
    obtain ⟨known, hlookup⟩ := hknown
    exact absurd (AList.lookup_isSome.mp (by rw [hlookup]; rfl)) hnot

end CoinsStack

end Amberchain.Storage
