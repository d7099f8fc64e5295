import Amberchain.Base.Folding
import Amberchain.Entity.Insert
import Amberchain.Transaction.Quantities

/-!
# Conservation of assets

The unbounded sums of what a transaction spends and creates of an asset, and how
the amount buffers follow them.  Both buffers hold the sums modulo the word size.
The output side is checked for overflow, so there the sum itself is held; of the
input side this is true as long as the sum fits.
-/

namespace Amberchain.Transaction

open Entity Folding

def itemsTotal (items : List AssetItem) (ref : FullRef) : ℕ :=
  (items.map fun item => if item.ref = ref then item.quantity.toNat else 0).sum

variable (params : ChainParams) (assets : AssetDB)

def carried (script : McScript) (scriptType : BitVec 32) (ref : FullRef) : ℕ :=
  match quantitiesElement params script scriptType with
  | .ok (_, items) => itemsTotal items ref
  | .error _ => 0

/-- What the current element carries of an asset as its genesis: all of it belongs
to the asset that the transaction issued. -/
def carriedGenesis (script : McScript) (hash : Hash256) (ref : FullRef) : ℕ :=
  match script.getAssetGenesis, assets.findEntityByTxID hash with
  | .ok quantity, some entity => if entity.fullRef params = ref then quantity.toNat else 0
  | _, _ => 0

def elementsTotal (script : McScript) (ofElement : McScript → ℕ) : ℕ :=
  ((List.range script.numElements).map fun element => ofElement (script.setElement element)).sum

def spentQuantity (ref : FullRef) (output : SpentOutput) : ℕ :=
  elementsTotal (McScript.setScript params output.script) fun script =>
    carried params script inputTypes ref + carriedGenesis params assets script output.hash ref

def createdQuantity (ref : FullRef) (output : Bytes) : ℕ :=
  let script := McScript.setScript params output
  if script.isOpReturn then 0
  else elementsTotal script fun script =>
    carried params script MC_SCR_ASSET_SCRIPT_TYPE_TRANSFER ref

def spentTotal (spent : List SpentOutput) (ref : FullRef) : ℕ :=
  (spent.map (spentQuantity params assets ref)).sum

def createdTotal (created : List Bytes) (ref : FullRef) : ℕ :=
  (created.map (createdQuantity params ref)).sum

variable {quantity : BitVec 64}

section Buffer

variable {amounts : Amounts} {ref key : FullRef} {index : ℕ} {new : AmountRow}

theorem row_eq_none_of_seek (hseek : amounts.seek ref = none) : amounts.row ref = none := by
  rw [Amounts.row, List.find?_eq_bind_findIdx?_getElem?]
  rw [Amounts.seek] at hseek
  rw [hseek]
  rfl

theorem row_eq_getRow_of_seek (hseek : amounts.seek ref = some index) :
    amounts.row ref = some (amounts.getRow ref index) := by
  rw [Amounts.seek] at hseek
  have hlt : index < amounts.length := by
    obtain ⟨h, -⟩ := List.findIdx?_eq_some_iff_getElem.mp hseek
    exact h
  rw [Amounts.row, List.find?_eq_bind_findIdx?_getElem?, hseek, Amounts.getRow]
  simp [List.getD, hlt]

theorem ref_of_row {row : AmountRow} (hrow : amounts.row ref = some row) : row.ref = ref := by
  simpa using List.find?_some hrow

theorem row_append (hseek : amounts.seek new.ref = none) :
    (amounts ++ [new]).row key = if key = new.ref then some new else amounts.row key := by
  rw [Amounts.row]
  by_cases hkey : key = new.ref
  · subst hkey
    have hnone : amounts.find? (fun row => row.ref = new.ref) = none := row_eq_none_of_seek hseek
    simp [hnone]
  have hne : new.ref ≠ key := fun h => hkey h.symm
  simp [Amounts.row, hkey, hne]

/-- The row of a reference is replaced by another one of the same reference. -/
theorem row_set (hseek : amounts.seek new.ref = some index) :
    Amounts.row (amounts.set index new) key
      = if key = new.ref then some new else amounts.row key := by
  induction amounts generalizing index with
  | nil => cases hseek
  | cons head tail ih =>
    rw [Amounts.seek, List.findIdx?_cons] at hseek
    by_cases hhead : head.ref = new.ref
    · simp only [hhead, decide_true, if_true, Option.some.injEq] at hseek
      subst hseek
      by_cases hkey : key = new.ref
      · subst hkey
        simp [Amounts.row]
      have hne : new.ref ≠ key := fun h => hkey h.symm
      simp [Amounts.row, hhead, hkey, hne]
    simp only [hhead, decide_false, Bool.false_eq_true, if_false, Option.map_eq_some_iff] at hseek
    obtain ⟨next, hnext, rfl⟩ := hseek
    have htail := ih hnext
    rw [Amounts.row] at htail ⊢
    rw [List.set_cons_succ, List.find?_cons, htail]
    by_cases hkey : head.ref = key
    · have hne : key ≠ new.ref := fun h => hhead (hkey.trans h)
      simp [Amounts.row, hkey, hne]
    simp [Amounts.row, hkey]

theorem quantity_append (hseek : amounts.seek new.ref = none) :
    Amounts.quantity (amounts ++ [new]) key
      = amounts.quantity key + if new.ref = key then new.quantity else 0 := by
  rw [Amounts.quantity, row_append hseek]
  by_cases hkey : key = new.ref
  · subst hkey
    simp [Amounts.quantity, row_eq_none_of_seek hseek]
  have hne : new.ref ≠ key := fun h => hkey h.symm
  simp [Amounts.quantity, hkey, hne]

theorem quantity_set (hseek : amounts.seek ref = some index) (href : new.ref = ref)
    (hquantity : new.quantity = quantity + (amounts.getRow ref index).quantity) :
    Amounts.quantity (amounts.set index new) key
      = amounts.quantity key + if ref = key then quantity else 0 := by
  subst href
  rw [Amounts.quantity, row_set hseek]
  by_cases hkey : key = new.ref
  · subst hkey
    simp [Amounts.quantity, row_eq_getRow_of_seek hseek, hquantity, BitVec.add_comm]
  have hne : new.ref ≠ key := fun h => hkey h.symm
  simp [Amounts.quantity, hkey, hne]

theorem quantity_eq_zero_of_seek (hseek : amounts.seek ref = none) : amounts.quantity ref = 0 := by
  simp [Amounts.quantity, row_eq_none_of_seek hseek]

theorem quantity_eq_getRow_of_seek (hseek : amounts.seek ref = some index) :
    amounts.quantity ref = (amounts.getRow ref index).quantity := by
  simp [Amounts.quantity, row_eq_getRow_of_seek hseek]

end Buffer

/-- The buffer holds a sum modulo the word size. -/
def Wraps (ref : FullRef) (amounts : Amounts) (total : ℕ) : Prop :=
  amounts.quantity ref = BitVec.ofNat 64 total

def Holds (ref : FullRef) (amounts : Amounts) (total : ℕ) : Prop :=
  Wraps ref amounts total ∧ total < 2 ^ 63

section Sums

variable {params : ChainParams} {assets : AssetDB} {ref : FullRef} {amounts after : Amounts}
  {total : ℕ} {script : McScript} {scriptType : BitVec 32} {hash : Hash256}

theorem ofNat_add_toNat (quantity : BitVec 64) :
    BitVec.ofNat 64 (total + quantity.toNat) = BitVec.ofNat 64 total + quantity := by
  rw [BitVec.ofNat_add, BitVec.ofNat_toNat, BitVec.setWidth_eq]

theorem toNat_lt_of_msb (hmsb : ¬ quantity.msb = true) : quantity.toNat < 2 ^ 63 := by
  have h := BitVec.msb_eq_decide quantity
  simp only [Bool.not_eq_true] at hmsb
  rw [hmsb] at h
  simpa using h.symm

theorem msb_of_toNat_lt (hlt : quantity.toNat < 2 ^ 63) : ¬ quantity.msb = true := by
  have h := BitVec.msb_eq_decide quantity
  rw [h]
  simpa using hlt

theorem add_lt_of_msb {left right : BitVec 64} (hleft : left.toNat < 2 ^ 63)
    (hright : right.toNat < 2 ^ 63) (hmsb : ¬ (left + right).msb = true) :
    left.toNat + right.toNat < 2 ^ 63 := by
  have hsum := toNat_lt_of_msb hmsb
  rw [BitVec.toNat_add] at hsum
  omega

/-- One item is added to the row of its reference, and a row below the sign bit
stays there. -/
theorem addItem_ok (ref : FullRef) {found found' : BitVec 32} {item : AssetItem}
    (hadd : addItem (amounts, found) item = .ok (after, found')) : ¬ item.quantity.msb = true
      ∧ (¬ (amounts.quantity item.ref).msb = true →
          ¬ (item.quantity + amounts.quantity item.ref).msb = true) ∧ after.quantity ref
        = amounts.quantity ref + if item.ref = ref then item.quantity else 0 := by
  rw [addItem] at hadd
  split at hadd
  · cases hadd
  next hmsb =>
    cases hseek : amounts.seek item.ref with
    | none =>
      rw [hseek] at hadd
      cases hadd
      have hzero := quantity_eq_zero_of_seek hseek
      constructor
      · exact hmsb
      constructor
      · intro _
        rw [hzero]
        simpa using hmsb
      · exact quantity_append hseek
    | some index =>
      rw [hseek] at hadd
      dsimp only at hadd
      split at hadd
      · cases hadd
      next hfits =>
        cases hadd
        have href := ref_of_row (row_eq_getRow_of_seek hseek)
        have hquantity := quantity_eq_getRow_of_seek hseek
        constructor
        · exact hmsb
        constructor
        · intro hlast hsum
          rw [hquantity] at hlast hsum
          exact hfits ⟨hlast, hsum⟩
        exact quantity_set hseek href rfl

/-- What a buffer that follows a sum adds to it follows the sum with the same
added. -/
theorem Wraps.add {other : FullRef} (hwraps : Wraps ref amounts total)
    (hafter : after.quantity ref = amounts.quantity ref + if other = ref then quantity else 0) :
    Wraps ref after (total + if other = ref then quantity.toNat else 0) := by
  rw [Wraps] at hwraps ⊢
  rw [hafter, hwraps]
  by_cases hother : other = ref
  · rw [if_pos hother, if_pos hother, ofNat_add_toNat]
  rw [if_neg hother, if_neg hother]
  exact BitVec.add_zero _

theorem Holds.toNat_eq (hholds : Holds ref amounts total) :
    (amounts.quantity ref).toNat = total := by
  rw [hholds.1, BitVec.toNat_ofNat]
  have := hholds.2
  omega

theorem Holds.toInt_pos (hholds : Holds ref amounts total) (hpos : 0 < total) :
    0 < (amounts.quantity ref).toInt := by
  have hlt := hholds.2
  rw [BitVec.toInt_eq_toNat_cond, hholds.toNat_eq]
  omega

/-- A relation between a buffer and a sum that adding items keeps. -/
def FollowsItems (ref : FullRef) (related : Amounts → ℕ → Prop) : Prop :=
  ∀ {amounts after : Amounts} {total : ℕ} {found found' : BitVec 32} {item : AssetItem},
    related amounts total → addItem (amounts, found) item = .ok (after, found') →
      related after (total + if item.ref = ref then item.quantity.toNat else 0)

theorem followsItems_wraps : FollowsItems ref (Wraps ref) := by
  intro amounts after total found found' item hwraps hadd
  exact hwraps.add (addItem_ok ref hadd).2.2

theorem followsItems_holds : FollowsItems ref (Holds ref) := by
  intro amounts after total found found' item hholds hadd
  obtain ⟨hitem, hfits, hafter⟩ := addItem_ok ref hadd
  constructor
  · exact hholds.1.add hafter
  by_cases href : item.ref = ref
  · subst href
    have hrow := hholds.toNat_eq
    have hlt : (amounts.quantity item.ref).toNat < 2 ^ 63 := by
      rw [hrow]
      exact hholds.2
    have hsum := add_lt_of_msb (toNat_lt_of_msb hitem) hlt (hfits (msb_of_toNat_lt hlt))
    rw [if_pos rfl, ← hrow, add_comm]
    exact hsum
  rw [if_neg href]
  exact hholds.2

variable {related : Amounts → ℕ → Prop}

theorem getAssetQuantities_eq_ok
    (hget : getAssetQuantities params script amounts scriptType = .ok after) :
    ∃ found items last, quantitiesElement params script scriptType = .ok (found, items) ∧
      items.foldlM addItem (amounts, found) = .ok (after, last) := by
  obtain ⟨⟨found, items⟩, helement, hrest⟩ := bind_eq_ok.mp hget
  obtain ⟨⟨rows, last⟩, hrows, hafter⟩ := bind_eq_ok.mp hrest
  cases hafter
  exact ⟨found, items, last, helement, hrows⟩

theorem getAssetQuantities_follows (hfollows : FollowsItems ref related)
    (hrelated : related amounts total)
    (hget : getAssetQuantities params script amounts scriptType = .ok after) :
    related after (total + carried params script scriptType ref) := by
  obtain ⟨found, items, last, helement, hitems⟩ := getAssetQuantities_eq_ok hget
  rw [carried, helement]
  exact foldlM_sum (fun h hadd => hfollows h hadd) hrelated hitems

/-- Only an element that is not of the given types is taken for another script. -/
theorem quantitiesElement_of_wrongScript
    (hget : getAssetQuantities params script amounts scriptType = .error .wrongScript) :
    ∃ err, quantitiesElement params script scriptType = .error err := by
  rw [getAssetQuantities] at hget
  cases helement : quantitiesElement params script scriptType with
  | error err => exact ⟨err, rfl⟩
  | ok element =>
    exfalso
    rw [helement] at hget
    obtain ⟨found, items⟩ := element
    have hitems : items.foldlM addItem (amounts, found) = .error .wrongScript := by
      cases hrun : items.foldlM addItem (amounts, found) with
      | error err => simpa [hrun, bind, Except.bind] using hget
      | ok result => simp [hrun, bind, Except.bind, pure, Except.pure] at hget
    have hnotAllowed : McError.wrongScript = .notAllowed := by
      apply foldlM_error (fun err => err = .notAllowed) _ hitems
      intro state item err hstep
      rw [addItem] at hstep
      dsimp only at hstep
      split at hstep
      · cases hstep
        rfl
      split at hstep
      · cases hstep
      split at hstep
      · cases hstep
        rfl
      · cases hstep
    cases hnotAllowed

theorem carried_of_wrongScript
    (hget : getAssetQuantities params script amounts scriptType = .error .wrongScript) :
    carried params script scriptType ref = 0 := by
  obtain ⟨err, helement⟩ := quantitiesElement_of_wrongScript hget
  rw [carried, helement]

theorem extractTransfers_follows {reason : String} (hfollows : FollowsItems ref related)
    (hrelated : related amounts total)
    (hextract : extractTransfers params script scriptType reason amounts = .ok after) :
    related after (total + carried params script scriptType ref) := by
  rw [extractTransfers] at hextract
  split at hextract
  next hget =>
    cases hextract
    exact getAssetQuantities_follows hfollows hrelated hget
  next hget =>
    cases hextract
    rwa [carried_of_wrongScript hget]
  · cases hextract

theorem extractInputGenesis_wraps (hwraps : Wraps ref amounts total)
    (hextract : extractInputGenesis params assets script hash amounts = .ok after) :
    Wraps ref after (total + carriedGenesis params assets script hash ref) := by
  rw [extractInputGenesis] at hextract
  rw [carriedGenesis]
  split at hextract
  next hgenesis =>
    cases hextract
    rwa [hgenesis]
  · cases hextract
  next quantity hgenesis =>
    rw [hgenesis]
    split at hextract
    · cases hextract
    next entity hentity =>
      rw [hentity]
      split at hextract
      · cases hextract
      cases hextract
      apply hwraps.add
      rw [addGenesis]
      split
      next hseek => exact quantity_append hseek
      next index hseek =>
        have href := ref_of_row (row_eq_getRow_of_seek hseek)
        exact quantity_set hseek href rfl

theorem extractInputElement_wraps {element : ℕ} (hwraps : Wraps ref amounts total)
    (hextract : extractInputElement params assets script hash amounts element = .ok after) :
    Wraps ref after (total + (carried params (script.setElement element) inputTypes ref
        + carriedGenesis params assets (script.setElement element) hash ref)) := by
  rw [extractInputElement] at hextract
  cases htransfers : extractTransfers params (script.setElement element) inputTypes
      "Asset transfer script rejected - error in script" amounts with
  | error err =>
    rw [htransfers] at hextract
    cases hextract
  | ok next =>
    rw [htransfers] at hextract
    have hnext := extractTransfers_follows followsItems_wraps hwraps htransfers
    rw [← add_assoc]
    exact extractInputGenesis_wraps hnext hextract

theorem inputAmounts_wraps {spent : List SpentOutput}
    (hinput : inputAmounts params assets spent = .ok amounts) :
    Wraps ref amounts (spentTotal params assets spent ref) := by
  have hempty : Wraps ref [] 0 := rfl
  rw [← zero_add (spentTotal params assets spent ref)]
  apply foldlM_sum _ hempty hinput
  intro state output next amount hstate hscript
  apply foldlM_sum _ hstate hscript
  intro state element next amount hstate helement
  exact extractInputElement_wraps hstate helement

theorem outputAmounts_holds {created : List Bytes}
    (houtput : outputAmounts params created = .ok amounts) :
    Holds ref amounts (createdTotal params created ref) := by
  have hempty : Holds ref [] 0 := ⟨rfl, by decide⟩
  rw [← zero_add (createdTotal params created ref)]
  apply foldlM_sum _ hempty houtput
  intro state output next amount hstate hscript
  rw [createdQuantity]
  dsimp only at hscript ⊢
  split at hscript
  next hreturn =>
    cases hscript
    rwa [if_pos hreturn]
  next hreturn =>
    rw [if_neg hreturn]
    apply foldlM_sum _ hstate hscript
    intro state element next amount hstate helement
    exact extractTransfers_follows followsItems_holds hstate helement

theorem quantity_of_matched {others : Amounts}
    (hmatched : ∀ row ∈ amounts, matched row others = true)
    (hpos : 0 < (amounts.quantity ref).toInt) : others.quantity ref = amounts.quantity ref := by
  cases hrow : amounts.row ref with
  | none => simp [Amounts.quantity, hrow] at hpos
  | some row =>
    have hquantity : amounts.quantity ref = row.quantity := by simp [Amounts.quantity, hrow]
    have href := ref_of_row hrow
    have hmatch := hmatched row (List.mem_of_find?_eq_some hrow)
    rw [hquantity] at hpos
    rw [matched, if_pos hpos, href] at hmatch
    split at hmatch
    · cases hmatch
    next index hseek =>
      simp only [decide_eq_true_eq] at hmatch
      rw [quantity_eq_getRow_of_seek hseek, hquantity, hmatch.2]

/-- Either side's positive quantities are the other side's. -/
theorem quantity_of_compare (ref : FullRef) {amountsIn amountsOut : Amounts}
    (hcompare : compareAssetQuantities params assets amountsIn amountsOut = .ok ()) :
    (0 < (amountsIn.quantity ref).toInt → amountsOut.quantity ref = amountsIn.quantity ref)
      ∧ (0 < (amountsOut.quantity ref).toInt →
          amountsIn.quantity ref = amountsOut.quantity ref) := by
  rw [compareAssetQuantities, bind_eq_ok] at hcompare
  obtain ⟨⟨⟩, hfirst, hsecond⟩ := hcompare
  rw [forM_eq_ok] at hfirst hsecond
  constructor
  · apply quantity_of_matched
    intro row hrow
    have hcheck := hfirst row hrow
    split at hcheck
    next hmatched => exact hmatched
    · cases hcheck
  apply quantity_of_matched
  intro row hrow
  have hcheck := hsecond row hrow
  split at hcheck
  · cases hcheck
  split at hcheck
  next hmatched => exact hmatched
  · cases hcheck

end Sums

def genesisScript (quantity : ℕ) : Bytes :=
  12 :: MC_DCT_SCRIPT_MULTICHAIN_IDENTIFIER
    ++ MC_DCT_SCRIPT_MULTICHAIN_ASSET_GENESIS_PREFIX :: putLE quantity 8 ++ [OP_DROP]

def transferScript (shortTxid quantity : ℕ) : Bytes :=
  28 :: MC_DCT_SCRIPT_MULTICHAIN_IDENTIFIER
    ++ MC_DCT_SCRIPT_MULTICHAIN_ASSET_QUANTITY_PREFIX :: putLE shortTxid 16 ++ putLE quantity 8
    ++ [OP_DROP]

def issuedTxid : Hash256 := 1 <<< 128

def issuedRef : FullRef := makeFullRef .defaults 1

def issuedAssets : AssetDB :=
  ((AssetDB.initialized .empty .empty).insertAsset .defaults ⟨issuedTxid, -1, [], [], true⟩
    5 [] 1).1

end Amberchain.Transaction
