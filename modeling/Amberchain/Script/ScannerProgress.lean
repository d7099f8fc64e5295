import Amberchain.Script.Scanners

/-!
# Progress of the script scanners

Each scanner goes forward through its script, and takes no part of it that is not
there, as long as it does not come to a four-byte size that is negative as a signed
integer.  `mc_CheckSigScriptForMutableTx` in addition must not come to anything but a
push, and `SetScript` leaves the script behind the data of `OP_RETURN`.
-/

namespace Amberchain

namespace Script

open Cursor StateTransition

variable {src : Bytes}

def NegativeSize (src : Bytes) (ptr : ℤ) : Prop :=
  byteAt src ptr = OP_PUSHDATA4 ∧ ptr + 5 ≤ src.length ∧ 2 ^ 31 ≤ numberAt src (ptr + 1) 4

theorem NegativeSize.le_pushData4 {ptr : ℤ} (hnegative : NegativeSize src ptr) :
    byteAt src ptr ≤ OP_PUSHDATA4 := by
  rw [hnegative.1]
  decide

theorem numberAt_lt (src : Bytes) (ptr : ℤ) (size : ℕ) : numberAt src ptr size < 256 ^ size :=
  getLE_lt _ _

theorem sizedPush_spec {ptr offset size : ℤ} {bytes : ℕ}
    (hdata : (if (src.length : ℤ) - (ptr + 1) < bytes then none
      else some (1 + (bytes : ℤ), toInt32 (numberAt src (ptr + 1) bytes))) = some (offset, size)) :
    offset = 1 + bytes ∧ size = toInt32 (numberAt src (ptr + 1) bytes)
      ∧ ptr + 1 + bytes ≤ src.length := by
  split at hdata
  · cases hdata
  next hend =>
    cases hdata
    exact ⟨rfl, rfl, by omega⟩

/-- The data of a push is inside the script, unless its size is negative. -/
theorem pushDataAt_spec {ptr offset size : ℤ} (hopcode : byteAt src ptr ≤ OP_PUSHDATA4)
    (hdata : pushDataAt src ptr = some (offset, size)) :
    1 ≤ offset ∧ ptr + offset + size ≤ src.length ∧ (¬ NegativeSize src ptr → 0 ≤ size) := by
  rw [pushDataAt, Option.filter_eq_some_iff] at hdata
  obtain ⟨hfound, hend⟩ := hdata
  have hend := of_decide_eq_true hend
  split at hfound
  · cases hfound
    exact ⟨le_rfl, hend, fun _ => Int.natCast_nonneg _⟩
  next hshort =>
    split at hfound
    next hone =>
      obtain ⟨hoffset, hsize, _⟩ := sizedPush_spec hfound
      have hlt := numberAt_lt src (ptr + 1) 1
      rw [toInt32_of_lt (by omega)] at hsize
      exact ⟨by omega, hend, fun _ => by omega⟩
    · split at hfound
      next htwo =>
        obtain ⟨hoffset, hsize, _⟩ := sizedPush_spec hfound
        have hlt := numberAt_lt src (ptr + 1) 2
        rw [toInt32_of_lt (by omega)] at hsize
        exact ⟨by omega, hend, fun _ => by omega⟩
      next hone htwo =>
        obtain ⟨hoffset, hsize, hfits⟩ := sizedPush_spec hfound
        refine ⟨by omega, hend, fun hnegative => ?_⟩
        have hfour : byteAt src ptr = OP_PUSHDATA4 := by
          simp only [OP_PUSHDATA1, OP_PUSHDATA2, OP_PUSHDATA4] at *
          bv_omega
        have hlt : numberAt src (ptr + 1) 4 < 2 ^ 31 := by
          by_contra hsign
          exact hnegative ⟨hfour, by omega, Nat.not_lt.mp hsign⟩
        rw [toInt32_of_lt hlt] at hsize
        omega

theorem pushDataAt_negative {ptr : ℤ} (hnegative : NegativeSize src ptr) :
    ∃ size : ℤ, size < 0 ∧ pushDataAt src ptr = some (5, size) := by
  obtain ⟨hopcode, hend, hsign⟩ := hnegative
  have hsize := toInt32_neg hsign (numberAt_lt src (ptr + 1) 4)
  refine ⟨toInt32 (numberAt src (ptr + 1) 4), hsize, ?_⟩
  have hfour : ¬ (src.length : ℤ) - (ptr + 1) < (4 : ℕ) := by omega
  rw [pushDataAt, hopcode, if_neg (by decide), if_neg (by decide), if_neg (by decide)]
  dsimp only
  rw [if_neg hfour, Option.filter_some, if_pos]
  · rfl
  rw [decide_eq_true_iff]
  omega

theorem operationAt_spec {ptr offset size : ℤ} (hlt : ptr < src.length)
    (hdata : operationAt src ptr = some (offset, size)) :
    1 ≤ offset ∧ ptr + offset + size ≤ src.length ∧ (¬ NegativeSize src ptr → 0 ≤ size) := by
  rw [operationAt] at hdata
  split at hdata
  next hopcode => exact pushDataAt_spec hopcode hdata
  · cases hdata
    exact ⟨le_rfl, by omega, fun _ => le_rfl⟩

theorem operationAt_negative {ptr : ℤ} (hnegative : NegativeSize src ptr) :
    ∃ size : ℤ, size < 0 ∧ operationAt src ptr = some (5, size) := by
  rw [operationAt, if_pos hnegative.le_pushData4]
  exact pushDataAt_negative hnegative

theorem getPushDataElement_spec {ptr offset size : ℤ}
    (hdata : getPushDataElement src ptr = some (offset, size)) :
    1 ≤ offset ∧ ptr + offset + size ≤ src.length ∧ (¬ NegativeSize src ptr → 0 ≤ size) := by
  rw [getPushDataElement] at hdata
  split at hdata
  · cases hdata
  next hlt =>
    split at hdata
    next hopcode => exact pushDataAt_spec hopcode hdata
    · split at hdata
      · cases hdata
      cases hdata
      exact ⟨le_rfl, by omega, fun _ => le_rfl⟩

theorem getPushDataElement_negative {ptr : ℤ} (hnegative : NegativeSize src ptr) :
    ∃ size : ℤ, size < 0 ∧ getPushDataElement src ptr = some (5, size) := by
  have hend := hnegative.2.1
  rw [getPushDataElement, if_neg (by omega), if_pos hnegative.le_pushData4]
  exact pushDataAt_negative hnegative

section Parts

variable {ptr : ℤ} {data : Option (ℤ × ℤ)}

theorem mem_pushedPart {part : ℤ × ℤ} (hpart : part ∈ pushedPart ptr data) :
    ∃ offset size : ℤ, data = some (offset, size) ∧ part = (ptr + offset, size) := by
  rw [pushedPart, Option.mem_toList, Option.map_eq_some_iff] at hpart
  obtain ⟨⟨offset, size⟩, hdata, hpart⟩ := hpart
  exact ⟨offset, size, hdata, hpart.symm⟩

theorem inside_pushedPart (hptr : 0 ≤ ptr) (hsign : ¬ NegativeSize src ptr)
    (hspec : ∀ {offset size : ℤ}, data = some (offset, size) →
      1 ≤ offset ∧ ptr + offset + size ≤ src.length ∧ (¬ NegativeSize src ptr → 0 ≤ size)) :
    ∀ part ∈ pushedPart ptr data, Inside src.length part := by
  intro part hpart
  obtain ⟨offset, size, hdata, rfl⟩ := mem_pushedPart hpart
  obtain ⟨hoffset, hend, hsize⟩ := hspec hdata
  exact ⟨by dsimp only; omega, hsize hsign, hend⟩

theorem not_negative_of_inside
    (hdata : NegativeSize src ptr → ∃ size : ℤ, size < 0 ∧ data = some (5, size))
    (hinside : ∀ part ∈ pushedPart ptr data, Inside src.length part) : ¬ NegativeSize src ptr := by
  intro hnegative
  obtain ⟨size, hsize, rfl⟩ := hdata hnegative
  have hpart := hinside (ptr + 5, size) (.head _)
  exact absurd hpart.2.1 (by dsimp only; omega)

end Parts

/-- The loop of `mc_CheckSigScriptForMutableTx`. -/
def sigCheckStep (src : Bytes) (state : SigCheck) : Option SigCheck :=
  (sigCheckRound src state).toOption

def sigCheckParts (src : Bytes) (state : SigCheck) : List (ℤ × ℤ) :=
  pushedPart state.ptr (getPushDataElement src state.ptr)

theorem toOption_eq_some {ε α : Type*} {result : Except ε α} {value : α} :
    result.toOption = some value ↔ result = .ok value := by
  cases result with
  | error err => simp [Except.toOption]
  | ok other => simp [Except.toOption]

theorem sigCheckRound_cases {state next : SigCheck} (hround : sigCheckRound src state = .ok next) :
    state.ptr < src.length ∧ (getPushDataElement src state.ptr = none ∧ next.ptr = state.ptr
        ∨ ∃ offset size : ℤ, getPushDataElement src state.ptr = some (offset, size)
          ∧ next.ptr = state.ptr + offset + size) := by
  rw [sigCheckRound] at hround
  split at hround
  · cases hround
  next hlt =>
    refine ⟨Int.not_le.mp hlt, ?_⟩
    split at hround
    next hnone =>
      cases hround
      exact .inl ⟨hnone, rfl⟩
    next offset size hdata =>
      cases hround
      exact .inr ⟨offset, size, hdata, rfl⟩

/-- The loop is not at an operation it cannot get past. -/
def SigCheck.MayPass (src : Bytes) (state : SigCheck) : Prop :=
  ¬ NegativeSize src state.ptr
    ∧ (state.ptr < src.length → getPushDataElement src state.ptr ≠ none)

theorem sigCheck_scans_iff (src : Bytes) :
    Scans (sigCheckStep src) SigCheck.ptr (sigCheckParts src) src.length sigCheckStart
      ↔ ∀ state, Reaches (sigCheckStep src) sigCheckStart state → state.MayPass src := by
  constructor
  · intro hscans state hreach
    refine ⟨not_negative_of_inside getPushDataElement_negative (hscans.parts hreach), ?_⟩
    intro hlt hnone
    have hround : sigCheckRound src state = .ok { state with result := state.result ||| 7 } := by
      rw [sigCheckRound, if_neg (Int.not_le.mpr hlt), hnone]
    have hnext := hscans.advances hreach (toOption_eq_some.mpr hround)
    exact absurd hnext (lt_irrefl _)
  intro hpass
  apply Scans.of_invariant fun state : SigCheck => 0 ≤ state.ptr ∧ state.ptr ≤ src.length
  · exact ⟨le_rfl, Int.natCast_nonneg _⟩
  · intro before behind hreach hbefore hnext
    obtain ⟨hsign, hsome⟩ := hpass before hreach
    obtain ⟨hlt, hcases⟩ := sigCheckRound_cases (toOption_eq_some.mp hnext)
    cases hcases with
    | inl hnone => exact absurd hnone.1 (hsome hlt)
    | inr hpush =>
      obtain ⟨offset, size, hdata, hptr⟩ := hpush
      obtain ⟨hoffset, hend, hsize⟩ := getPushDataElement_spec hdata
      have := hsize hsign
      exact ⟨⟨by omega, by omega⟩, by omega⟩
  · exact fun hstate => hstate
  intro state hreach hstate
  exact inside_pushedPart hstate.1 (hpass state hreach).1 getPushDataElement_spec

/-- The loop of `mc_ExtractAddressFromInputScript`. -/
def addressStep (src : Bytes) (checkLast : Bool) (state : AddressScan) : Option AddressScan :=
  (addressRound src checkLast state).toOption

def addressParts (src : Bytes) (checkLast : Bool) (state : AddressScan) : List (ℤ × ℤ) :=
  pushedPart state.ptr (getPushDataElement src state.ptr) ++
    match addressRound src checkLast state with
    | .ok _ => []
    | .error result => result.address.toList

/-- What the loop knows of the last element. -/
structure AddressScan.Follows (src : Bytes) (state : AddressScan) : Prop where
  nonneg : 0 ≤ state.ptr
  le_length : state.ptr ≤ src.length
  last : state.hashType.isSome = true → 0 ≤ state.size ∧ state.size ≤ state.ptr

theorem addressRound_cases {checkLast : Bool} {state next : AddressScan}
    (hround : addressRound src checkLast state = .ok next) :
    ∃ offset size : ℤ, getPushDataElement src state.ptr = some (offset, size)
      ∧ next.ptr = state.ptr + offset + size ∧ next.size = size := by
  rw [addressRound] at hround
  split at hround
  · cases hround
  split at hround
  · cases hround
  next offset size hdata =>
    by_cases hsingle : state.ptr = 0 ∧ size ≠ 0 ∧ state.ptr + offset + size = (src.length : ℤ)
    · rw [if_pos hsingle] at hround
      cases hround
    rw [if_neg hsingle] at hround
    cases hround
    exact ⟨offset, size, hdata, rfl, rfl⟩

theorem addressRound_address {checkLast : Bool} {state : AddressScan} {result : AddressResult}
    (hround : addressRound src checkLast state = .error result) {part : ℤ × ℤ}
    (hpart : part ∈ result.address.toList) :
    state.hashType.isSome = true ∧ part = (state.ptr - state.size, state.size) := by
  have hnone {found isRedeemScript : Bool} {hashType : SigHash} :
      part ∉ (AddressResult.mk found none isRedeemScript hashType).address.toList :=
    List.not_mem_nil
  rw [addressRound] at hround
  split at hround
  · cases hround
    rw [AddressScan.finish] at hpart
    split at hpart
    · exact absurd hpart hnone
    next hashType hsome =>
      rw [hsome]
      exact ⟨rfl, List.mem_singleton.mp hpart⟩
  split at hround
  · cases hround
    exact absurd hpart hnone
  next offset size hdata =>
    by_cases hsingle : state.ptr = 0 ∧ size ≠ 0 ∧ state.ptr + offset + size = (src.length : ℤ)
    · rw [if_pos hsingle] at hround
      cases hround
      exact absurd hpart hnone
    rw [if_neg hsingle] at hround
    cases hround

theorem address_scans_iff (src : Bytes) (checkLast : Bool) :
    Scans (addressStep src checkLast) AddressScan.ptr (addressParts src checkLast) src.length
        addressStart ↔ ∀ state, Reaches (addressStep src checkLast) addressStart state →
          ¬ NegativeSize src state.ptr := by
  constructor
  · intro hscans state hreach
    apply not_negative_of_inside getPushDataElement_negative
    intro part hpart
    exact hscans.parts hreach part (List.mem_append_left _ hpart)
  intro hsigns
  apply Scans.of_invariant (AddressScan.Follows src)
  · exact ⟨le_rfl, Int.natCast_nonneg _, fun hsome => absurd hsome Bool.false_ne_true⟩
  · intro before behind hreach hbefore hnext
    obtain ⟨offset, size, hdata, hptr, hlast⟩ := addressRound_cases (toOption_eq_some.mp hnext)
    obtain ⟨hoffset, hend, hsize⟩ := getPushDataElement_spec hdata
    have hpos := hsize (hsigns before hreach)
    have hnonneg := hbefore.nonneg
    exact ⟨⟨by omega, by omega, fun _ => ⟨by omega, by omega⟩⟩, by omega⟩
  · exact fun hstate => ⟨hstate.nonneg, hstate.le_length⟩
  intro state hreach hstate part hpart
  cases List.mem_append.mp hpart with
  | inl hpushed =>
    exact inside_pushedPart hstate.nonneg (hsigns state hreach) getPushDataElement_spec part hpushed
  | inr haddress =>
    split at haddress
    · cases haddress
    next result hround =>
      obtain ⟨hsome, rfl⟩ := addressRound_address hround haddress
      obtain ⟨hpos, hle⟩ := hstate.last hsome
      have hend := hstate.le_length
      exact ⟨by dsimp only; omega, hpos, by dsimp only; omega⟩

/-- The loops of `mc_ParseOpDropOpReturnScript`. -/
def dropReturnStep (src : Bytes) (count : ℕ) (state : DropReturnScan) : Option DropReturnScan :=
  (dropReturnRound src count state).toOption

/-- The elements found so far, the element of a round, and the element behind
`OP_RETURN`. -/
def dropReturnParts (src : Bytes) (count : ℕ) (state : DropReturnScan) : List (ℤ × ℤ) :=
  state.drops ++ pushedPart state.ptr (getPushDataElement src state.ptr) ++
    match dropReturnRound src count state with
    | .ok _ => []
    | .error result => result.opReturn.toList

/-- The loops are at no negative size, and not before one behind `OP_RETURN`. -/
def DropReturnScan.MayPass (src : Bytes) (state : DropReturnScan) : Prop :=
  ¬ NegativeSize src state.ptr
    ∧ (state.ptr < src.length → byteAt src state.ptr = OP_RETURN →
      ¬ NegativeSize src (state.ptr + 1))

structure DropReturnScan.Follows (src : Bytes) (state : DropReturnScan) : Prop where
  nonneg : 0 ≤ state.ptr
  le_length : state.ptr ≤ src.length
  drops : ∀ part ∈ state.drops, Inside src.length part

section DropReturn

variable {state : DropReturnScan}

theorem dropRound_follows (hstate : state.Follows src) (hlt : state.ptr < src.length)
    (hsign : ¬ NegativeSize src state.ptr) :
    (dropRound src state).Follows src ∧ state.ptr < (dropRound src state).ptr := by
  have hnonneg := hstate.nonneg
  rw [dropRound]
  split
  · exact ⟨⟨by dsimp only; omega, by dsimp only; omega, hstate.drops⟩, by dsimp only; omega⟩
  next offset size hdata =>
    obtain ⟨hoffset, hend, hsize⟩ := getPushDataElement_spec hdata
    have hpos := hsize hsign
    dsimp only
    split
    next hdrop =>
      refine ⟨⟨by dsimp only; omega, by dsimp only; omega, ?_⟩, by dsimp only; omega⟩
      intro part hpart
      cases List.mem_append.mp hpart with
      | inl hbefore => exact hstate.drops part hbefore
      | inr hlast =>
        rw [List.mem_singleton.mp hlast]
        exact ⟨by dsimp only; omega, hpos, hend⟩
    · exact ⟨⟨by dsimp only; omega, hend, hstate.drops⟩, by dsimp only; omega⟩

theorem skipRound_follows (hstate : state.Follows src) (hlt : state.ptr < src.length)
    (hsign : ¬ NegativeSize src state.ptr) :
    (skipRound src state).Follows src ∧ state.ptr < (skipRound src state).ptr := by
  have hnonneg := hstate.nonneg
  rw [skipRound]
  split
  · exact ⟨⟨by dsimp only; omega, by dsimp only; omega, hstate.drops⟩, by dsimp only; omega⟩
  next offset size hdata =>
    obtain ⟨hoffset, hend, hsize⟩ := getPushDataElement_spec hdata
    have hpos := hsize hsign
    exact ⟨⟨by dsimp only; omega, by dsimp only; omega, hstate.drops⟩, by dsimp only; omega⟩

theorem dropReturnRound_cases {count : ℕ} {next : DropReturnScan}
    (hround : dropReturnRound src count state = .ok next) :
    state.ptr < src.length ∧ (next = dropRound src state ∨ next = skipRound src state) := by
  rw [dropReturnRound] at hround
  split at hround
  · cases hround
  next hlt =>
    refine ⟨Int.not_le.mp hlt, ?_⟩
    split at hround
    · cases hround
    split at hround
    · cases hround
      exact .inl rfl
    cases hround
    exact .inr rfl

theorem dropReturnRound_opReturn {count : ℕ} {result : DropReturnResult}
    (hround : dropReturnRound src count state = .error result) {part : ℤ × ℤ}
    (hpart : part ∈ result.opReturn.toList) :
    state.ptr < src.length ∧ byteAt src state.ptr = OP_RETURN
      ∧ part = returnElement src (state.ptr + 1) := by
  rw [dropReturnRound] at hround
  split at hround
  · cases hround
    cases hpart
  next hlt =>
    split at hround
    next hreturn =>
      cases hround
      exact ⟨Int.not_le.mp hlt, hreturn, List.mem_singleton.mp hpart⟩
    · split at hround
      · cases hround
      cases hround

theorem returnElement_inside {ptr : ℤ} (hnonneg : 0 ≤ ptr) (hle : ptr ≤ src.length)
    (hsign : ¬ NegativeSize src ptr) : Inside src.length (returnElement src ptr) := by
  rw [returnElement]
  split
  · exact ⟨hnonneg, le_rfl, by dsimp only; omega⟩
  next offset size hdata =>
    obtain ⟨hoffset, hend, hsize⟩ := getPushDataElement_spec hdata
    exact ⟨by dsimp only; omega, hsize hsign, hend⟩

theorem not_negative_of_returnElement {ptr : ℤ}
    (hinside : Inside src.length (returnElement src ptr)) : ¬ NegativeSize src ptr := by
  intro hnegative
  obtain ⟨size, hsize, hdata⟩ := getPushDataElement_negative hnegative
  rw [returnElement, hdata] at hinside
  exact absurd hinside.2.1 (by dsimp only; omega)

end DropReturn

theorem dropReturn_scans_iff (src : Bytes) (count : ℕ) :
    Scans (dropReturnStep src count) DropReturnScan.ptr (dropReturnParts src count) src.length
        dropReturnStart ↔ ∀ state, Reaches (dropReturnStep src count) dropReturnStart state →
          state.MayPass src := by
  constructor
  · intro hscans state hreach
    have hparts := hscans.parts hreach
    refine ⟨not_negative_of_inside getPushDataElement_negative ?_, ?_⟩
    · intro part hpart
      exact hparts part (List.mem_append_left _ (List.mem_append_right _ hpart))
    intro hlt hreturn
    apply not_negative_of_returnElement
    apply hparts
    apply List.mem_append_right
    rw [dropReturnRound, if_neg (Int.not_le.mpr hlt), if_pos hreturn]
    exact List.mem_singleton.mpr rfl
  intro hpass
  apply Scans.of_invariant (DropReturnScan.Follows src)
  · exact ⟨le_rfl, Int.natCast_nonneg _, fun part hpart => absurd hpart List.not_mem_nil⟩
  · intro before behind hreach hbefore hnext
    have hsign := (hpass before hreach).1
    obtain ⟨hlt, hcases⟩ := dropReturnRound_cases (toOption_eq_some.mp hnext)
    cases hcases with
    | inl hdrop =>
      rw [hdrop]
      exact dropRound_follows hbefore hlt hsign
    | inr hskip =>
      rw [hskip]
      exact skipRound_follows hbefore hlt hsign
  · exact fun hstate => ⟨hstate.nonneg, hstate.le_length⟩
  intro state hreach hstate part hpart
  have hpassed := hpass state hreach
  cases List.mem_append.mp hpart with
  | inl hfound =>
    cases List.mem_append.mp hfound with
    | inl hdrops => exact hstate.drops part hdrops
    | inr hpushed =>
      exact inside_pushedPart hstate.nonneg hpassed.1 getPushDataElement_spec part hpushed
  | inr hreturned =>
    split at hreturned
    · cases hreturned
    next result hround =>
      obtain ⟨hlt, hreturn, rfl⟩ := dropReturnRound_opReturn hround hreturned
      have hnonneg := hstate.nonneg
      exact returnElement_inside (by omega) (by omega) (hpassed.2 hlt hreturn)

/-- The loop of `SetScript`. -/
def setScriptStep (src : Bytes) (params : ChainParams) (type : ScriptType)
    (scan : SetScriptScan) : Option SetScriptScan :=
  (setScriptRound src params type scan).toOption

def setScriptParts (src : Bytes) (params : ChainParams) (type : ScriptType)
    (scan : SetScriptScan) : List (ℤ × ℤ) :=
  scan.elements
    ++ (if scan.ptr < src.length then pushedPart scan.ptr (operationAt src scan.ptr) else [])
    ++ match setScriptRound src params type scan with
      | .ok _ => []
      | .error result => result.elements

/-- The loop is at no negative size, and not behind `OP_RETURN` before data. -/
def SetScriptScan.MayPass (src : Bytes) (scan : SetScriptScan) : Prop :=
  ¬ NegativeSize src scan.ptr
    ∧ (scan.afterReturn = true → scan.ptr < src.length → ∀ offset size : ℤ,
        operationAt src scan.ptr = some (offset, size) → size ≤ 0)

structure SetScriptScan.Follows (src : Bytes) (scan : SetScriptScan) : Prop where
  nonneg : 0 ≤ scan.ptr
  le_length : scan.ptr ≤ src.length
  elements : ∀ part ∈ scan.elements, Inside src.length part
  last : 0 ≤ scan.lastSize → Inside src.length (scan.prev, scan.lastSize)

section SetScript

variable {params : ChainParams} {type : ScriptType} {scan : SetScriptScan}

theorem setScriptRound_cases {next : SetScriptScan}
    (hround : setScriptRound src params type scan = .ok next) :
    scan.ptr < src.length ∧ ∃ offset size : ℤ, operationAt src scan.ptr = some (offset, size)
      ∧ next = scan.next src params type (byteAt src scan.ptr) (scan.ptr + offset) size := by
  rw [setScriptRound] at hround
  split at hround
  · cases hround
  next hlt =>
    refine ⟨Int.not_le.mp hlt, ?_⟩
    split at hround
    · cases hround
    next offset size hdata =>
      cases hround
      exact ⟨offset, size, hdata, rfl⟩

theorem setScriptRound_elements {result : SetScriptResult}
    (hround : setScriptRound src params type scan = .error result) {part : ℤ × ℤ}
    (hpart : part ∈ result.elements) : part ∈ scan.elements ∨ part = (scan.ptr, 0) := by
  rw [setScriptRound] at hround
  split at hround
  · cases hround
    rw [SetScriptScan.finish] at hpart
    split at hpart
    · rw [List.mem_append, List.mem_singleton] at hpart
      exact hpart
    · exact .inl hpart
  split at hround
  · cases hround
    exact .inl hpart
  cases hround

/-- The move to the end of an operation. -/
theorem advance_follows {data size : ℤ} (opcode : Byte)
    (helements : ∀ part ∈ scan.elements, Inside src.length part)
    (hinside : Inside src.length (data, size)) :
    (scan.advance params opcode data size).Follows src := by
  obtain ⟨hdata, hsize, hend⟩ := hinside
  refine ⟨by dsimp only [SetScriptScan.advance]; omega,
    by dsimp only [SetScriptScan.advance]; omega, helements, ?_⟩
  intro hlast
  rw [SetScriptScan.advance] at hlast ⊢
  dsimp only at hlast ⊢
  split
  next hnone =>
    rw [if_pos hnone] at hlast
    exact absurd hlast (by decide)
  · exact ⟨hdata, hsize, hend⟩

theorem beforeReturn_elements (hscan : scan.Follows src) (opcode : Byte) :
    ∀ part ∈ (scan.beforeReturn opcode).elements, Inside src.length part := by
  rw [SetScriptScan.beforeReturn]
  split
  · exact hscan.elements
  split
  · split
    next hlast =>
      intro part hpart
      cases List.mem_append.mp hpart with
      | inl hbefore => exact hscan.elements part hbefore
      | inr hnew =>
        rw [List.mem_singleton.mp hnew]
        exact hscan.last hlast
    · exact hscan.elements
  exact hscan.elements

theorem addElement_elements (hscan : scan.Follows src) {data size : ℤ} (hpos : 1 ≤ data)
    (hinside : Inside src.length (data, size)) :
    ∀ part ∈ (scan.addElement data size).elements, Inside src.length part := by
  obtain ⟨hdata, hsize, hend⟩ := hinside
  intro part hpart
  cases List.mem_append.mp hpart with
  | inl hbefore => exact hscan.elements part hbefore
  | inr hnew =>
    rw [List.mem_singleton.mp hnew]
    split
    · exact ⟨hdata, hsize, hend⟩
    split
    · exact ⟨hdata, le_rfl, by dsimp only; omega⟩
    exact ⟨by dsimp only; omega, Int.zero_le_ofNat 1, by dsimp only; omega⟩

theorem next_follows (hscan : scan.Follows src) (hpass : scan.MayPass src)
    (hlt : scan.ptr < src.length) {offset size : ℤ}
    (hdata : operationAt src scan.ptr = some (offset, size)) (opcode : Byte) :
    (scan.next src params type opcode (scan.ptr + offset) size).Follows src
      ∧ scan.ptr < (scan.next src params type opcode (scan.ptr + offset) size).ptr := by
  have hnonneg := hscan.nonneg
  obtain ⟨hoffset, hend, hsize⟩ := operationAt_spec hlt hdata
  have hpos := hsize hpass.1
  have hinside : Inside src.length (scan.ptr + offset, size) := ⟨by dsimp only; omega, hpos, hend⟩
  rw [SetScriptScan.next]
  split
  · exact ⟨advance_follows opcode (beforeReturn_elements hscan opcode) hinside,
      by dsimp only [SetScriptScan.advance]; omega⟩
  split
  · have hempty : Inside src.length (scan.ptr + offset, 0) :=
      ⟨hinside.1, le_rfl, by dsimp only; omega⟩
    exact ⟨advance_follows opcode hscan.elements hempty,
      by dsimp only [SetScriptScan.advance]; omega⟩
  have helements := addElement_elements hscan (by omega) hinside
  split
  next hreturn =>
    have hzero := hpass.2 hreturn hlt offset size hdata
    have hlast : Inside src.length ((src.length : ℤ), size) :=
      ⟨Int.natCast_nonneg _, hpos, by dsimp only; omega⟩
    exact ⟨advance_follows opcode helements hlast, by dsimp only [SetScriptScan.advance]; omega⟩
  · exact ⟨advance_follows opcode helements hinside, by dsimp only [SetScriptScan.advance]; omega⟩

theorem afterReturn_next {opcode : Byte} {data size : ℤ} (htype : type ≠ .scriptPubKey)
    (hbefore : scan.afterReturn = false) :
    (scan.next src params type opcode data size).afterReturn = false := by
  rw [SetScriptScan.next, if_neg fun hpubKey => htype hpubKey.1]
  split
  · exact hbefore
  rfl

theorem scriptPubKey_of_afterReturn (hreach : Reaches (setScriptStep src params type)
    setScriptStart scan) (hreturn : scan.afterReturn = true) : type = .scriptPubKey := by
  by_contra htype
  have hnever : scan.afterReturn = false := by
    apply reaches_induction (fun scan : SetScriptScan => scan.afterReturn = false) rfl _ hreach
    intro before behind _ hbefore hnext
    obtain ⟨_, -, -, _, rfl⟩ := setScriptRound_cases (toOption_eq_some.mp hnext)
    exact afterReturn_next htype hbefore
  rw [hnever] at hreturn
  exact Bool.false_ne_true hreturn

theorem next_ptr_of_afterReturn {opcode : Byte} {data size : ℤ}
    (hreturn : scan.afterReturn = true) :
    (scan.next src params .scriptPubKey opcode data size).ptr = src.length + size := by
  rw [SetScriptScan.next, hreturn]
  rfl

end SetScript

theorem setScript_scans_iff (src : Bytes) (params : ChainParams) (type : ScriptType) :
    Scans (setScriptStep src params type) SetScriptScan.ptr (setScriptParts src params type)
        src.length setScriptStart
      ↔ ∀ scan, Reaches (setScriptStep src params type) setScriptStart scan → scan.MayPass src := by
  constructor
  · intro hscans scan hreach
    have hparts := hscans.parts hreach
    constructor
    · intro hnegative
      have hlt : scan.ptr < src.length := by
        have := hnegative.2.1
        omega
      apply not_negative_of_inside operationAt_negative _ hnegative
      intro part hpart
      apply hparts
      rw [setScriptParts, if_pos hlt]
      exact List.mem_append_left _ (List.mem_append_right _ hpart)
    intro hreturn hlt offset size hdata
    have htype := scriptPubKey_of_afterReturn hreach hreturn
    have hround : setScriptRound src params type scan
        = .ok (scan.next src params type (byteAt src scan.ptr) (scan.ptr + offset) size) := by
      rw [setScriptRound, if_neg (Int.not_le.mpr hlt), hdata]
    have hinside := (hscans.inside (hreach.tail (toOption_eq_some.mpr hround))).2
    rw [htype, next_ptr_of_afterReturn hreturn] at hinside
    omega
  intro hpass
  apply Scans.of_invariant (SetScriptScan.Follows src)
  · exact ⟨le_rfl, Int.natCast_nonneg _, fun part hpart => absurd hpart List.not_mem_nil,
      fun hlast => absurd hlast (by decide)⟩
  · intro before behind hreach hbefore hnext
    obtain ⟨hlt, offset, size, hdata, rfl⟩ := setScriptRound_cases (toOption_eq_some.mp hnext)
    exact next_follows hbefore (hpass before hreach) hlt hdata _
  · exact fun hscan => ⟨hscan.nonneg, hscan.le_length⟩
  intro scan hreach hscan part hpart
  cases List.mem_append.mp hpart with
  | inl hfound =>
    cases List.mem_append.mp hfound with
    | inl helements => exact hscan.elements part helements
    | inr hpushed =>
      split at hpushed
      next hlt =>
        exact inside_pushedPart hscan.nonneg (hpass scan hreach).1
          (operationAt_spec hlt) part hpushed
      · cases hpushed
  | inr hlast =>
    split at hlast
    · cases hlast
    next result hround =>
      cases setScriptRound_elements hround hlast with
      | inl hbefore => exact hscan.elements part hbefore
      | inr hempty =>
        rw [hempty]
        have hle := hscan.le_length
        exact ⟨hscan.nonneg, le_rfl, by dsimp only; omega⟩

/-- A scanner goes forward through its script, takes parts of it only, and ends,
exactly if it comes to no negative size, the check of signatures comes to nothing but
pushes, and `SetScript` comes to no data behind `OP_RETURN`. -/
theorem scanners_progress_iff (src : Bytes) :
    (Scans (sigCheckStep src) SigCheck.ptr (sigCheckParts src) src.length sigCheckStart
        ↔ ∀ state, Reaches (sigCheckStep src) sigCheckStart state → state.MayPass src)
      ∧ (∀ checkLast, Scans (addressStep src checkLast) AddressScan.ptr
            (addressParts src checkLast) src.length addressStart
          ↔ ∀ state, Reaches (addressStep src checkLast) addressStart state →
              ¬ NegativeSize src state.ptr)
      ∧ (∀ count, Scans (dropReturnStep src count) DropReturnScan.ptr
            (dropReturnParts src count) src.length dropReturnStart
          ↔ ∀ state, Reaches (dropReturnStep src count) dropReturnStart state → state.MayPass src)
      ∧ ∀ params type, Scans (setScriptStep src params type) SetScriptScan.ptr
            (setScriptParts src params type) src.length setScriptStart
          ↔ ∀ scan, Reaches (setScriptStep src params type) setScriptStart scan →
              scan.MayPass src :=
  ⟨sigCheck_scans_iff src, address_scans_iff src, dropReturn_scans_iff src, setScript_scans_iff src⟩

/-- The check of signatures stays at an operation that is no push, and `SetScript` at
a push of minus five bytes. -/
theorem scanners_hang :
    ¬ Scans (sigCheckStep [OP_RETURN]) SigCheck.ptr (sigCheckParts [OP_RETURN]) 1 sigCheckStart
      ∧ ¬ Scans (setScriptStep [OP_PUSHDATA4, 0xfb, 0xff, 0xff, 0xff] .defaults .scriptPubKey)
        SetScriptScan.ptr
        (setScriptParts [OP_PUSHDATA4, 0xfb, 0xff, 0xff, 0xff] .defaults .scriptPubKey) 5
        setScriptStart := by
  constructor
  · intro hscans
    have hnext : sigCheckStep [OP_RETURN] sigCheckStart = some ⟨0, 7⟩ := by decide
    exact absurd (hscans.advances Relation.ReflTransGen.refl hnext) (by decide)
  intro hscans
  have hnext : setScriptStep [OP_PUSHDATA4, 0xfb, 0xff, 0xff, 0xff] .defaults .scriptPubKey
      setScriptStart = some { setScriptStart with prev := 5, lastSize := -5, isDirty := true } := by
    decide
  exact absurd (hscans.advances Relation.ReflTransGen.refl hnext) (by decide)

end Script

end Amberchain
