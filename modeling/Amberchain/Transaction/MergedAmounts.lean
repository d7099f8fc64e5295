import Amberchain.Transaction.Conservation
import Amberchain.Transaction.Messages

/-!
# Quantities are merged into an amounts buffer

The rows of the references that an element names get its quantities and its script type;
the other rows stay as they are.  The script type that one row had is passed on to the rows
of the items behind it.
-/

namespace Amberchain.Transaction

open Entity Folding

def TypesWithin (types others : BitVec 32) : Prop :=
  types ||| others = others

theorem typesWithin_or_iff {types more others : BitVec 32} :
    TypesWithin (types ||| more) others ↔ TypesWithin types others ∧ TypesWithin more others := by
  constructor
  · intro hboth
    constructor
    · calc types ||| others
          = types ||| (types ||| more ||| others) := by rw [hboth]
        _ = types ||| more ||| others := by
            rw [← BitVec.or_assoc, ← BitVec.or_assoc, BitVec.or_self]
        _ = others := hboth
    calc more ||| others
        = more ||| (types ||| more ||| others) := by rw [hboth]
      _ = types ||| more ||| others := by
          rw [BitVec.or_comm types, ← BitVec.or_assoc, ← BitVec.or_assoc, BitVec.or_self]
      _ = others := hboth
  rintro ⟨htypes, hmore⟩
  calc types ||| more ||| others
      = types ||| (more ||| others) := BitVec.or_assoc ..
    _ = others := by rw [hmore, htypes]

def Amounts.scriptTypes (amounts : Amounts) (ref : FullRef) : BitVec 32 :=
  ((amounts.row ref).map AmountRow.scriptType).getD 0

section Rounds

variable {amounts after : Amounts} {found last : BitVec 32} {item : AssetItem}
  {items : List AssetItem}

/-- One item changes the row of its reference only, which gets all script types found so
far. -/
theorem addItem_rows (hadd : addItem (amounts, found) item = .ok (after, last)) :
    last = found ||| amounts.scriptTypes item.ref ∧ (∃ new : AmountRow, new.scriptType = last ∧
        ∀ key, after.row key = if key = item.ref then some new else amounts.row key) ∧
      ((amounts.map AmountRow.ref).Nodup → (after.map AmountRow.ref).Nodup) := by
  rw [addItem] at hadd
  split at hadd
  · cases hadd
  cases hseek : amounts.seek item.ref with
  | none =>
    rw [hseek] at hadd
    cases hadd
    have hnone := row_eq_none_of_seek hseek
    refine ⟨by simp [Amounts.scriptTypes, hnone], ⟨_, rfl, fun key => row_append hseek⟩, ?_⟩
    intro hdistinct
    rw [List.map_append, List.nodup_append]
    refine ⟨hdistinct, List.nodup_singleton _, ?_⟩
    intro ref href other hother hsame
    obtain ⟨row, hrow, rfl⟩ := List.mem_map.mp href
    rw [Amounts.seek, List.findIdx?_eq_none_iff] at hseek
    exact absurd (hsame.trans (List.mem_singleton.mp hother)) (of_decide_eq_false (hseek row hrow))
  | some index =>
    rw [hseek] at hadd
    dsimp only at hadd
    split at hadd
    · cases hadd
    cases hadd
    have hrow := row_eq_getRow_of_seek hseek
    have href := ref_of_row hrow
    let new : AmountRow := { amounts.getRow item.ref index with
      quantity := item.quantity + (amounts.getRow item.ref index).quantity
      scriptType := found ||| (amounts.getRow item.ref index).scriptType }
    have hnew : new.ref = item.ref := href
    have hset (key : FullRef) : Amounts.row (amounts.set index new) key =
        if key = new.ref then some new else amounts.row key := row_set (hnew.symm ▸ hseek)
    have hrefs : (amounts.set index new).map AmountRow.ref = amounts.map AmountRow.ref := by
      obtain ⟨hlt, hat, -⟩ := List.findIdx?_eq_some_iff_getElem.mp hseek
      refine List.ext_getElem? fun i => ?_
      rw [List.getElem?_map, List.getElem?_map, List.getElem?_set]
      split
      · next heq =>
        subst heq
        simpa [hlt, hnew, eq_comm] using hat
      · rfl
    refine ⟨by simp [Amounts.scriptTypes, hrow], ⟨new, rfl, fun key => ?_⟩, fun hdistinct => ?_⟩
    · exact (hset key).trans (by rw [hnew])
    exact hrefs ▸ hdistinct

/-- The rows that the items name have the types of the element and those that they had, and
no others but those of rows that are named. -/
theorem foldlM_addItem_rows : ∀ {items : List AssetItem} {amounts : Amounts} {found : BitVec 32},
      items.foldlM addItem (amounts, found) = .ok (after, last) →
        (∀ ref, (∀ item ∈ items, item.ref ≠ ref) → after.row ref = amounts.row ref) ∧
        (∀ named ∈ items, ∃ row, after.row named.ref = some row ∧
          TypesWithin (found ||| amounts.scriptTypes named.ref) row.scriptType ∧
          ∀ types, TypesWithin found types →
            (∀ item ∈ items, TypesWithin (amounts.scriptTypes item.ref) types) →
              TypesWithin row.scriptType types) ∧
        ((amounts.map AmountRow.ref).Nodup → (after.map AmountRow.ref).Nodup) := by
  intro items
  induction items with
  | nil =>
    intro amounts found hdone
    cases hdone
    exact ⟨fun _ _ => rfl, List.forall_mem_nil _, id⟩
  | cons item items ih =>
    intro amounts found hdone
    obtain ⟨⟨middle, next⟩, hadd, hrest⟩ := foldlM_cons_eq_ok.mp hdone
    obtain ⟨hnext, ⟨new, hnew, hrows⟩, hkept⟩ := addItem_rows hadd
    obtain ⟨hothers, hnamed, hlater⟩ := ih hrest
    have htypes : ∀ ref, middle.scriptTypes ref =
        if ref = item.ref then next else amounts.scriptTypes ref := by
      intro ref
      rw [Amounts.scriptTypes, hrows]
      split
      · exact hnew
      · rfl
    have hgrows : ∀ types, TypesWithin next types ↔
        TypesWithin found types ∧ TypesWithin (amounts.scriptTypes item.ref) types := by
      intro types
      rw [hnext]
      exact typesWithin_or_iff
    refine ⟨fun ref hne => ?_, fun named hmem => ?_, fun hdistinct => hlater (hkept hdistinct)⟩
    · obtain ⟨hitem, hitems⟩ := List.forall_mem_cons.mp hne
      rw [hothers ref hitems, hrows, if_neg (Ne.symm hitem)]
    by_cases hagain : ∃ later ∈ items, later.ref = named.ref
    · obtain ⟨later, hlaterMem, href⟩ := hagain
      obtain ⟨row, hrow, hat, hmost⟩ := hnamed later hlaterMem
      rw [href] at hrow hat
      refine ⟨row, hrow, ?_, fun types hfound hall => ?_⟩
      · obtain ⟨hnextRow, hmiddle⟩ := typesWithin_or_iff.mp hat
        rw [htypes] at hmiddle
        refine typesWithin_or_iff.mpr ⟨((hgrows _).mp hnextRow).1, ?_⟩
        by_cases hsame : named.ref = item.ref
        · rw [hsame]
          exact ((hgrows _).mp hnextRow).2
        · rwa [if_neg hsame] at hmiddle
      have hgrown := (hgrows types).mpr ⟨hfound, hall item (.head _)⟩
      refine hmost types hgrown fun other hother => ?_
      rw [htypes]
      split
      · exact hgrown
      · exact hall other (.tail _ hother)
    have hlast : named = item := by
      rcases List.mem_cons.mp hmem with heq | hmem
      · exact heq
      · exact absurd ⟨named, hmem, rfl⟩ hagain
    subst hlast
    refine ⟨new, ?_, ?_, fun types hfound hall => ?_⟩
    · rw [hothers _ fun later hmem href => hagain ⟨later, hmem, href⟩, hrows, if_pos rfl]
    · rw [hnew, ← hnext]
      exact BitVec.or_self
    rw [hnew]
    exact (hgrows types).mpr ⟨hfound, hall named (.head _)⟩

end Rounds

/-- A successful `GetAssetQuantities` adds the quantities of each reference to its row without
overflow and leaves the rows of the other references alone; a row that is named has its own
script types and that of the element, and only these when the other rows that are named have
no further types.  What `SetAssetQuantities` writes is read into an empty buffer as the same
rows, all of the type of the element. -/
theorem assetQuantities_merge (params : ChainParams) :
    (∀ (script : McScript) (amounts after : Amounts) (scriptType : BitVec 32),
      (amounts.map AmountRow.ref).Nodup → (∀ row ∈ amounts, row.quantity.msb = false) →
      getAssetQuantities params script amounts scriptType = .ok after →
        ∃ found items, quantitiesElement params script scriptType = .ok (found, items) ∧
          (after.map AmountRow.ref).Nodup ∧
          (∀ ref, (∀ item ∈ items, item.ref ≠ ref) → after.row ref = amounts.row ref) ∧
          ∀ named ∈ items, ∃ row, after.row named.ref = some row ∧ row.quantity.toNat =
              (amounts.quantity named.ref).toNat + itemsTotal items named.ref ∧
            row.quantity.toNat < 2 ^ 63 ∧
            TypesWithin (found ||| amounts.scriptTypes named.ref) row.scriptType ∧
            ((∀ item ∈ items, TypesWithin (amounts.scriptTypes item.ref)
                (found ||| amounts.scriptTypes named.ref)) →
              row.scriptType = found ||| amounts.scriptTypes named.ref)) ∧
    ∀ (script script' : McScript) (amounts : Amounts) (written scriptType : BitVec 32),
      amounts.Sendable params → setAssetQuantities params script amounts written = .ok script' →
      scriptType &&& written ≠ 0 → getAssetQuantities params script' [] scriptType =
          .ok (amounts.map fun row => { row with scriptType := written }) := by
  constructor
  · intro script amounts after scriptType hdistinct hquantities hget
    obtain ⟨found, items, last, helement, hrows⟩ := getAssetQuantities_eq_ok hget
    obtain ⟨hothers, hnamed, hkept⟩ := foldlM_addItem_rows hrows
    refine ⟨found, items, helement, hkept hdistinct, hothers, fun named hmem => ?_⟩
    obtain ⟨row, hrow, hat, hmost⟩ := hnamed named hmem
    have hstart : Holds named.ref amounts (amounts.quantity named.ref).toNat := by
      refine ⟨by simp [Wraps], toNat_lt_of_msb ?_⟩
      rw [Amounts.quantity]
      cases hold : amounts.row named.ref with
      | none => decide
      | some old =>
        have hmsb := hquantities old (List.mem_of_find?_eq_some hold)
        simpa using hmsb
    have hholds := foldlM_sum (fun hrelated hround => followsItems_holds hrelated hround) hstart
      hrows
    have hrowQuantity : after.quantity named.ref = row.quantity := by
      rw [Amounts.quantity, hrow]
      rfl
    have htotal := hholds.toNat_eq
    rw [hrowQuantity] at htotal
    refine ⟨row, hrow, htotal, htotal ▸ hholds.2, hat, fun hall => ?_⟩
    have hwithin := hmost _ (typesWithin_or_iff.mp BitVec.or_self).1 hall
    calc row.scriptType
        = (found ||| amounts.scriptTypes named.ref) ||| row.scriptType := hat.symm
      _ = row.scriptType ||| (found ||| amounts.scriptTypes named.ref) := BitVec.or_comm ..
      _ = found ||| amounts.scriptTypes named.ref := hwithin
  intro script script' amounts written scriptType hsendable hset hmask
  rw [getAssetQuantities_own hsendable hset, if_pos hmask]

def mixedAmounts : Amounts :=
  [⟨makeFullRef .defaults 5, 7, MC_SCR_ASSET_SCRIPT_TYPE_FOLLOWON⟩,
    ⟨makeFullRef .defaults 6, 8, MC_SCR_ASSET_SCRIPT_TYPE_TRANSFER⟩]

/-- The rows when the same quantities come again. -/
def mixedMerged : Amounts :=
  [⟨makeFullRef .defaults 5, 14, 3⟩, ⟨makeFullRef .defaults 6, 16, 3⟩]

def mixedTransfer : McScript :=
  McScript.cleared.addTagged MC_DCT_SCRIPT_MULTICHAIN_IDENTIFIER
    MC_DCT_SCRIPT_MULTICHAIN_ASSET_QUANTITY_PREFIX (writtenAmounts .defaults mixedAmounts)

theorem mixedAmounts_merge :
    (∃ found items, quantitiesElement .defaults mixedTransfer inputTypes = .ok (found, items) ∧
      ∀ named ∈ items, ∃ row, mixedMerged.row named.ref = some row ∧ row.quantity.toNat =
        (mixedAmounts.quantity named.ref).toNat + itemsTotal items named.ref) ∧
    getAssetQuantities .defaults mixedTransfer [] inputTypes =
      .ok (mixedAmounts.map fun row => { row with scriptType := 1 }) := by
  obtain ⟨hmerge, hwritten⟩ := assetQuantities_merge .defaults
  obtain ⟨found, items, helement, -, -, hnamed⟩ := hmerge mixedTransfer mixedAmounts mixedMerged
    inputTypes (by decide +kernel) (by decide +kernel) (by decide +kernel)
  refine ⟨⟨found, items, helement, fun named hmem => ?_⟩, hwritten .cleared mixedTransfer
    mixedAmounts 1 inputTypes ⟨?_, by decide +kernel, by decide +kernel⟩ rfl (by decide)⟩
  · obtain ⟨row, hrow, htotal, -⟩ := hnamed named hmem
    exact ⟨row, hrow, htotal⟩
  simp only [mixedAmounts, List.forall_mem_cons]
  exact ⟨⟨5, by decide, rfl⟩, ⟨6, by decide, rfl⟩, List.forall_mem_nil _⟩

/-- The second row gets the follow-on type of the first one, and the types of the rows are not
written. -/
theorem mixedAmounts_pass_types :
    (¬∀ (script : McScript) (amounts after : Amounts) (scriptType found : BitVec 32)
      (items : List AssetItem), (amounts.map AmountRow.ref).Nodup →
      (∀ row ∈ amounts, row.quantity.msb = false) →
      getAssetQuantities .defaults script amounts scriptType = .ok after →
      quantitiesElement .defaults script scriptType = .ok (found, items) →
        ∀ item ∈ items, after.scriptTypes item.ref = found ||| amounts.scriptTypes item.ref) ∧
    setAssetQuantities .defaults .cleared mixedAmounts MC_SCR_ASSET_SCRIPT_TYPE_TRANSFER =
      .ok mixedTransfer ∧
    getAssetQuantities .defaults mixedTransfer [] inputTypes ≠ .ok mixedAmounts := by
  refine ⟨fun hall => ?_, rfl, by decide +kernel⟩
  have htypes := hall mixedTransfer mixedAmounts mixedMerged inputTypes
    MC_SCR_ASSET_SCRIPT_TYPE_TRANSFER [⟨makeFullRef .defaults 5, 7⟩, ⟨makeFullRef .defaults 6, 8⟩]
    (by decide +kernel) (by decide +kernel) (by decide +kernel) (by decide +kernel)
    ⟨makeFullRef .defaults 6, 8⟩ (by decide +kernel)
  exact absurd htypes (by decide +kernel)

end Amberchain.Transaction
