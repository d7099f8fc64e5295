import Amberchain.Permission.Commit
import Mathlib.Algebra.Order.Floor.Div

/-!
# Shares of admins and miners

Two fractions are turned into numbers of addresses: the consensus parameters
into the admins that have to agree, and `miningdiversity` into the blocks that a
miner has to wait.  Both products are formed in 32 bits.
-/

namespace Amberchain.Permission

namespace Store

variable {params : ChainParams} {store : Store} {entity : Hash256} {type : PermType}

/-- `AdminConsensus` is the share of the admins rounded up, between one and all
of them, and its product fits 32 bits. -/
structure ExactShare (params : ChainParams) (store : Store) (entity : Hash256) (type : PermType)
    (share : ℕ) : Prop where
  value : (store.adminConsensus params entity type).toNat =
    (store.getAdminCount params).toNat * share ⌈/⌉ MC_PRM_DECIMAL_GRANULARITY
  pos : 1 ≤ (store.adminConsensus params entity type).toNat
  le_count : (store.adminConsensus params entity type).toNat ≤
    (store.getAdminCount params).toNat
  fits : (store.getAdminCount params * BitVec.ofNat 32 share).toNat =
    (store.getAdminCount params).toNat * share

theorem pred_div_add_one {value unit : ℕ} (hvalue : 0 < value) (hunit : 0 < unit) :
    (value - 1) / unit + 1 = value ⌈/⌉ unit := by
  rw [← Nat.add_div_right _ hunit]
  congr 1
  omega

/-- Outside the setup period the product is formed modulo `2 ^ 32`. -/
theorem adminConsensus_toNat {share : ℕ} (hparam : consensusParam params entity type = some ↑share)
    (hsetup : store.isSetupPeriod params = false) (hshare : 0 < share)
    (hgranularity : share ≤ MC_PRM_DECIMAL_GRANULARITY)
    (hcount : 0 < (store.getAdminCount params).toNat) :
    (store.adminConsensus params entity type).toNat =
      ((store.getAdminCount params).toNat * share + (2 ^ 32 - 1)) % 2 ^ 32
        / MC_PRM_DECIMAL_GRANULARITY + 1 := by
  have hbound : MC_PRM_DECIMAL_GRANULARITY = 1000000 := rfl
  have hlt : share < 2 ^ 32 := by omega
  have hadmins : store.getAdminCount params ≠ 0 := fun hzero => by
    rw [hzero] at hcount
    exact absurd hcount (lt_irrefl _)
  have hshareBits : BitVec.ofInt 32 (share : ℤ) = BitVec.ofNat 32 share := by simp
  have hconsensus : BitVec.ofNat 32 share ≠ 0 := fun hzero => by
    have htoNat := congrArg BitVec.toNat hzero
    rw [BitVec.toNat_ofNat, Nat.mod_eq_of_lt hlt] at htoNat
    exact absurd htoNat hshare.ne'
  unfold adminConsensus
  rw [if_neg hadmins, hparam]
  dsimp only
  rw [hshareBits, if_neg (by rw [hsetup]; simpa using hconsensus)]
  generalize store.getAdminCount params = count at *
  have hone : (1 : BitVec 32).toNat = 1 := rfl
  have hunit : 1000000 % 2 ^ 32 = 1000000 := rfl
  simp only [BitVec.toNat_add, BitVec.udiv_eq, BitVec.toNat_udiv, BitVec.toNat_sub,
    BitVec.toNat_mul, BitVec.toNat_ofNat, Nat.mod_eq_of_lt hlt, hone, hbound, hunit]
  generalize count.toNat * share = product
  omega

/-- The consensus threshold is the share of the admins rounded up exactly while
the product fits 32 bits. -/
theorem adminConsensus_exact_iff {share : ℕ}
    (hparam : consensusParam params entity type = some ↑share) (hshare : 1 ≤ share)
    (hgranularity : share ≤ MC_PRM_DECIMAL_GRANULARITY)
    (hsetup : store.isSetupPeriod params = false)
    (hadmins : 1 ≤ (store.getAdminCount params).toInt) : ExactShare params store entity type share ↔
      (store.getAdminCount params).toNat * share < 2 ^ 32 := by
  have hbound : MC_PRM_DECIMAL_GRANULARITY = 1000000 := rfl
  have hcount : 1 ≤ (store.getAdminCount params).toNat := by
    rw [BitVec.toInt_eq_toNat_bmod] at hadmins
    by_contra hzero
    rw [Nat.lt_one_iff.mp (not_le.mp hzero)] at hadmins
    exact absurd hadmins (by decide)
  have hproduct : 0 < (store.getAdminCount params).toNat * share := Nat.mul_pos hcount hshare
  constructor
  · intro hexact
    rw [← hexact.fits]
    exact BitVec.isLt _
  intro hfits
  have hvalue : (store.adminConsensus params entity type).toNat =
      (store.getAdminCount params).toNat * share ⌈/⌉ MC_PRM_DECIMAL_GRANULARITY := by
    rw [adminConsensus_toNat hparam hsetup hshare hgranularity hcount,
      ← pred_div_add_one hproduct (by decide), hbound]
    generalize (store.getAdminCount params).toNat * share = product at *
    omega
  refine ⟨hvalue, ?_, ?_, ?_⟩
  · rw [hvalue, ← pred_div_add_one hproduct (by decide)]
    exact Nat.le_add_left 1 _
  · rw [hvalue, ceilDiv_le_iff_le_mul (by decide), mul_comm MC_PRM_DECIMAL_GRANULARITY]
    exact Nat.mul_le_mul_left _ hgranularity
  rw [BitVec.toNat_mul, BitVec.toNat_ofNat, Nat.mod_eq_of_lt (by omega : share < 2 ^ 32),
    Nat.mod_eq_of_lt hfits]

def withAdmins (count : BitVec 32) : Store :=
  { zero .empty .empty with block := 100, adminCount := count }

theorem adminConsensus_exact_iff_three :
    ExactShare .defaults (withAdmins 3) nullEntity MC_PTP_ADMIN 600000 ↔
      ((withAdmins 3).getAdminCount .defaults).toNat * 600000 < 2 ^ 32 :=
  adminConsensus_exact_iff rfl (by decide) (by decide) (by decide) (by decide)

/-- With 7200 admins and the default share, 26 of them are enough. -/
theorem adminConsensus_not_exact :
    ((withAdmins 7200).adminConsensus .defaults nullEntity MC_PTP_ADMIN).toNat = 26 ∧
      ¬ ExactShare .defaults (withAdmins 7200) nullEntity MC_PTP_ADMIN 600000 := by
  have htwentySix :
      ((withAdmins 7200).adminConsensus .defaults nullEntity MC_PTP_ADMIN).toNat = 26 := by
    decide
  refine ⟨htwentySix, fun hexact => ?_⟩
  have hvalue := hexact.value
  exact absurd hvalue (by decide)

/-- `GetActiveMinerCount`, in 32-bit arithmetic. -/
def getActiveMinerCount (params : ChainParams) (store : Store) : BitVec 32 :=
  let minerCount :=
    if store.isSetupPeriod params then store.minerCount
    else
      let diversity := BitVec.ofInt 32 params.miningDiversity
      let diversity :=
        if 0 < diversity.toInt then
          (store.minerCount * diversity - 1).sdiv (BitVec.ofNat 32 MC_PRM_DECIMAL_GRANULARITY)
        else diversity
      let diversity := diversity + 1
      let minerCount := store.minerCount - (diversity - 1)
      let minerCount := if minerCount.toInt < 1 then 1 else minerCount
      if store.minerCount.toInt < minerCount.toInt then store.minerCount else minerCount
  if store.minerCount.toInt ≤ 0 then 1 else minerCount

def waitsNot (params : ChainParams) (height : ℕ) (minerCount : BitVec 32) : Option ℕ → Bool
  | none => true
  | some last => !isBarredByDiversity params height last minerCount

/-- The share of the miners that both functions compute before they bound it. -/
def diversityShare (params : ChainParams) (minerCount : BitVec 32) : BitVec 32 :=
  if 0 < (BitVec.ofInt 32 params.miningDiversity).toInt then
    (minerCount * BitVec.ofInt 32 params.miningDiversity - 1).sdiv
      (BitVec.ofNat 32 MC_PRM_DECIMAL_GRANULARITY)
  else BitVec.ofInt 32 params.miningDiversity

/-- The bounds of `IsBarredByDiversity`: at least one and at most all miners. -/
def boundShare (diversity minerCount : BitVec 32) : BitVec 32 :=
  let diversity := if diversity.toInt < 1 then 1 else diversity
  if minerCount.toInt < diversity.toInt then minerCount else diversity

theorem boundShare_pred (diversity : BitVec 32) {minerCount : BitVec 32}
    (hcount : 1 ≤ minerCount.toInt) : (boundShare diversity minerCount - 1).toInt =
      min (max diversity.toInt 1) minerCount.toInt - 1 := by
  have hone : (1 : BitVec 32).toInt = 1 := by decide
  have hbound : (boundShare diversity minerCount).toInt =
      min (max diversity.toInt 1) minerCount.toInt := by
    unfold boundShare
    dsimp only
    by_cases hlow : diversity.toInt < 1
    · rw [if_pos hlow, hone, if_neg (not_lt.mpr hcount), hone, max_eq_right hlow.le,
        min_eq_left hcount]
    rw [if_neg hlow, max_eq_left (not_lt.mp hlow)]
    by_cases hhigh : minerCount.toInt < diversity.toInt
    · rw [if_pos hhigh, min_eq_right hhigh.le]
    · rw [if_neg hhigh, min_eq_left (not_lt.mp hhigh)]
  have hhigh := BitVec.toInt_lt (x := minerCount)
  rw [BitVec.toInt_sub, hbound]
  exact Int.bmod_eq_of_le (by omega) (by omega)

/-- Also where the product wraps around, the share is small. -/
theorem diversityShare_bounds (minerCount : BitVec 32) (hge : 0 ≤ params.miningDiversity)
    (hle : params.miningDiversity ≤ MC_PRM_DECIMAL_GRANULARITY) :
    -2148 ≤ (diversityShare params minerCount).toInt ∧
      (diversityShare params minerCount).toInt ≤ 2148 := by
  have hbound : MC_PRM_DECIMAL_GRANULARITY = 1000000 := rfl
  have hdiversity : (BitVec.ofInt 32 params.miningDiversity).toInt = params.miningDiversity := by
    rw [BitVec.toInt_ofInt]
    exact Int.bmod_eq_of_le (by omega) (by omega)
  unfold diversityShare
  rw [hdiversity]
  by_cases hpos : 0 < params.miningDiversity
  · have hunit : (BitVec.ofNat 32 MC_PRM_DECIMAL_GRANULARITY).toInt = 1000000 := by decide
    rw [if_pos hpos, BitVec.toInt_sdiv, hunit]
    generalize minerCount * BitVec.ofInt 32 params.miningDiversity - 1 = product
    have hlow := BitVec.le_toInt product
    have hhigh := BitVec.toInt_lt (x := product)
    have hsplit := Int.mul_tdiv_add_tmod product.toInt 1000000
    have hmodLow := Int.lt_tmod_of_pos product.toInt (by decide : (0 : ℤ) < 1000000)
    have hmodHigh := Int.tmod_lt_of_pos product.toInt (by decide : (0 : ℤ) < 1000000)
    have hquotLow : -2148 ≤ product.toInt.tdiv 1000000 := by omega
    have hquotHigh : product.toInt.tdiv 1000000 ≤ 2148 := by omega
    rw [Int.bmod_eq_of_le (by omega) (by omega)]
    exact ⟨hquotLow, hquotHigh⟩
  rw [if_neg hpos]
  omega

theorem toInt_ofNat_of_lt {value : ℕ} (hlt : value < 2 ^ 31) :
    (BitVec.ofNat 32 value).toInt = value := by
  rw [BitVec.toInt_ofNat']
  exact Int.bmod_eq_of_le (by omega) (by omega)

/-- A miner is barred while fewer blocks than its spacing have passed. -/
theorem isBarredByDiversity_iff {height last : ℕ} {minerCount : BitVec 32}
    (hge : 0 ≤ params.miningDiversity) (hle : params.miningDiversity ≤ MC_PRM_DECIMAL_GRANULARITY)
    (hsetup : params.setupFirstBlocks ≤ height) (hcount : 1 ≤ minerCount.toInt)
    (hlast : last < height) (hheight : height < 2 ^ 31) :
    isBarredByDiversity params height last minerCount = true ↔ (height : ℤ) - last ≤
        min (max ((diversityShare params minerCount).toInt + 1) 1) minerCount.toInt - 1 := by
  obtain ⟨hlow, hhigh⟩ := diversityShare_bounds minerCount hge hle
  have hne : minerCount ≠ 0 := fun hzero => by
    rw [hzero] at hcount
    exact absurd hcount (by decide)
  have hone : (1 : BitVec 32).toInt = 1 := by decide
  have hnext : (diversityShare params minerCount + 1).toInt =
      (diversityShare params minerCount).toInt + 1 := by
    rw [BitVec.toInt_add]
    exact Int.bmod_eq_of_le (by omega) (by omega)
  have hpassed : (BitVec.ofNat 32 height - BitVec.ofNat 32 last).toInt = (height : ℤ) - last := by
    rw [BitVec.toInt_sub, toInt_ofNat_of_lt hheight, toInt_ofNat_of_lt (hlast.trans hheight)]
    exact Int.bmod_eq_of_le (by omega) (by omega)
  have hbarred : isBarredByDiversity params height last minerCount =
      decide ((BitVec.ofNat 32 height - BitVec.ofNat 32 last).toInt ≤
        (boundShare (diversityShare params minerCount + 1) minerCount - 1).toInt) := by
    unfold isBarredByDiversity
    rw [if_neg hne, if_neg (not_lt.mpr hsetup)]
    rfl
  have hspacing := boundShare_pred (diversityShare params minerCount + 1) hcount
  rw [hnext] at hspacing
  rw [hbarred, decide_eq_true_iff, hpassed, hspacing]

/-- The active miners are at least one and at most those that the spacing leaves. -/
theorem getActiveMinerCount_bounds (hge : 0 ≤ params.miningDiversity)
    (hle : params.miningDiversity ≤ MC_PRM_DECIMAL_GRANULARITY)
    (hsetup : store.isSetupPeriod params = false) (hcount : 1 ≤ store.minerCount.toInt) :
    1 ≤ (store.getActiveMinerCount params).toInt ∧ (store.getActiveMinerCount params).toInt ≤
        min (max (store.minerCount.toInt - (diversityShare params store.minerCount).toInt) 1)
          store.minerCount.toInt := by
  obtain ⟨-, hhigh⟩ := diversityShare_bounds store.minerCount hge hle
  have hone : (1 : BitVec 32).toInt = 1 := by decide
  have hactive : store.getActiveMinerCount params =
      let left := store.minerCount - (diversityShare params store.minerCount + 1 - 1)
      let left := if left.toInt < 1 then 1 else left
      if store.minerCount.toInt < left.toInt then store.minerCount else left := by
    unfold getActiveMinerCount
    rw [hsetup, if_neg (not_le.mpr hcount), if_neg Bool.false_ne_true]
    rfl
  rw [hactive, BitVec.add_sub_cancel]
  dsimp only
  -- the difference wraps around only where it is above all miners
  have hleft : (store.minerCount - diversityShare params store.minerCount).toInt ≤
      max (store.minerCount.toInt - (diversityShare params store.minerCount).toInt) 1 := by
    rw [BitVec.toInt_sub]
    by_cases hfits :
        store.minerCount.toInt - (diversityShare params store.minerCount).toInt < 2 ^ 31
    · rw [Int.bmod_eq_of_le (by omega) (by omega)]
      exact le_max_left _ _
    have hwrapped := Int.bmod_lt (x := store.minerCount.toInt -
      (diversityShare params store.minerCount).toInt) (m := 2 ^ 32) (by omega)
    omega
  generalize store.minerCount - diversityShare params store.minerCount = left at *
  by_cases hsmall : left.toInt < 1
  · rw [if_pos hsmall, if_neg (by omega)]
    omega
  rw [if_neg hsmall]
  by_cases hover : store.minerCount.toInt < left.toInt
  · rw [if_pos hover]
    omega
  rw [if_neg hover]
  omega

end Store

/-- A miner is barred by one of at most `spacing - 1` heights, and no two by the
same. -/
theorem card_le_of_recent {Miner : Type*} {miners : Finset Miner} (last : Miner → Option ℕ)
    (height : ℕ) {spacing : ℕ} (hlast : ∀ miner ∈ miners, ∃ block, last miner = some block ∧
      block < height ∧ height - block < spacing)
    (hinj : Set.InjOn last miners) : miners.card ≤ spacing - 1 := by
  have hmaps : ∀ miner ∈ miners, last miner ∈
      (Finset.Ico (height + 1 - spacing) height).image some := by
    intro miner hmem
    obtain ⟨block, hblock, hlt, hrecent⟩ := hlast miner hmem
    rw [hblock]
    exact Finset.mem_image_of_mem _ (Finset.mem_Ico.mpr ⟨by omega, hlt⟩)
  calc miners.card
      ≤ ((Finset.Ico (height + 1 - spacing) height).image some).card :=
        Finset.card_le_card_of_injOn last hmaps hinj
    _ ≤ (Finset.Ico (height + 1 - spacing) height).card := Finset.card_image_le
    _ ≤ spacing - 1 := by
        rw [Nat.card_Ico]
        omega

namespace Store

variable {params : ChainParams} {store : Store}

/-- Mining diversity leaves as many permitted miners as the active miner count
says: their last blocks are distinct, and only the blocks of the spacing bar. -/
theorem active_le_permitted {Miner : Type*} {miners : Finset Miner} {last : Miner → Option ℕ}
    {height : ℕ} (hcount : store.minerCount.toInt = miners.card) (hminers : 1 ≤ miners.card)
    (hge : 0 ≤ params.miningDiversity) (hle : params.miningDiversity ≤ MC_PRM_DECIMAL_GRANULARITY)
    (hsetup : store.isSetupPeriod params = false) (hpast : params.setupFirstBlocks ≤ height)
    (hheight : height < 2 ^ 31)
    (hbelow : ∀ miner ∈ miners, ∀ block, last miner = some block → block < height)
    (hinj : ∀ miner ∈ miners, ∀ other ∈ miners, last miner ≠ none →
      last miner = last other → miner = other) : (store.getActiveMinerCount params).toInt ≤
        (miners.filter fun miner => waitsNot params height store.minerCount (last miner)).card ∧
      1 ≤ (store.getActiveMinerCount params).toInt ∧
      (store.getActiveMinerCount params).toInt ≤ miners.card := by
  have hpos : 1 ≤ store.minerCount.toInt := by omega
  obtain ⟨hone, hactive⟩ := getActiveMinerCount_bounds hge hle hsetup hpos
  have hsplit := miners.card_filter_add_card_filter_not
    (fun miner => waitsNot params height store.minerCount (last miner) = true)
  let spacing := min (max ((diversityShare params store.minerCount).toInt + 1) 1)
    store.minerCount.toInt
  have hbarred : (miners.filter fun miner =>
      ¬ waitsNot params height store.minerCount (last miner) = true).card ≤ spacing.toNat - 1 := by
    refine card_le_of_recent last height (fun miner hmem => ?_) ?_
    · obtain ⟨hminer, hwaits⟩ := Finset.mem_filter.mp hmem
      cases hblock : last miner with
      | none =>
        rw [hblock] at hwaits
        exact absurd rfl hwaits
      | some block =>
        rw [hblock, waitsNot, Bool.not_eq_true', Bool.not_eq_false] at hwaits
        have hlt := hbelow miner hminer block hblock
        rw [isBarredByDiversity_iff hge hle hpast hpos hlt hheight] at hwaits
        refine ⟨block, rfl, hlt, ?_⟩
        omega
    intro miner hminer other hother heq
    obtain ⟨hmem, hwaits⟩ := Finset.mem_filter.mp hminer
    refine hinj miner hmem other (Finset.mem_filter.mp hother).1 (fun hnone => ?_) heq
    rw [hnone] at hwaits
    exact hwaits rfl
  refine ⟨?_, hone, ?_⟩
  · omega
  omega

def threeMiners : Store :=
  { zero .empty .empty with block := 100, minerCount := 3 }

theorem active_le_permitted_three : (threeMiners.getActiveMinerCount .defaults).toInt ≤
        ((Finset.range 3).filter fun miner =>
          waitsNot .defaults 101 threeMiners.minerCount ([none, some 99, some 100].getD miner none)).card ∧
      1 ≤ (threeMiners.getActiveMinerCount .defaults).toInt ∧
      (threeMiners.getActiveMinerCount .defaults).toInt ≤ (Finset.range 3).card :=
  active_le_permitted (by decide) (by decide) (by decide) (by decide) (by decide) (by decide)
    (by decide) (by decide) (by decide)

end Store

end Amberchain.Permission
