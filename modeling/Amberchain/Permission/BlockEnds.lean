import Amberchain.Permission.CommitSpec

/-!
# Growing and cutting the log by blocks

A log of blocks stays one when the rows of the next block are added, and when
the blocks above a height are cut off.
-/

namespace Amberchain.Permission

open RowChain

variable {row : ℕ → LedgerRow} {block : ℤ} {base : ℕ}

theorem BlockEnd.unique {height left right : ℕ} (hleft : BlockEnd row base height left)
    (hright : BlockEnd row base height right) : left = right := by
  have hleft2 := hleft.two_lt
  have hright2 := hright.two_lt
  have hleftBase := hleft.le_base
  have hrightBase := hright.le_base
  by_contra hne
  rcases Nat.lt_or_gt_of_ne hne with hlt | hlt
  · have hover := hleft.beyond left le_rfl (by omega)
    have hunder := hright.under left (by omega) hlt
    omega
  have hover := hright.beyond right le_rfl (by omega)
  have hunder := hleft.under right (by omega) hlt
  omega

/-- The end of a block stays where it is when later rows change. -/
theorem BlockEnd.congr {row' : ℕ → LedgerRow} {base' height last : ℕ}
    (hend : BlockEnd row base height last) (hle : last ≤ base')
    (hrows : ∀ i, 0 < i → i < last → row i = row' i)
    (hover : ∀ i, last ≤ i → i < base' → height < (row' i).blockReceived) :
    BlockEnd row' base' height last := by
  have htwo := hend.two_lt
  have hcount : ∀ type, countAt row type last (height + 1) =
      countAt row' type last (height + 1) := fun type =>
    countAt_congr type (height + 1)
      (fun i hi hlt => by rw [hrows i hi hlt])
      (fun i hi hlt => by rw [hrows i hi hlt])
      fun i hi hlt => by rw [hrows i hi hlt]
  have hlast := hrows (last - 1) (by omega) (by omega)
  refine ⟨htwo, hle, ?_, hover, ?_, ?_, ?_, ?_⟩
  · intro i hi hlt
    rw [← hrows i hi hlt]
    exact hend.under i hi hlt
  · rw [← hlast]
    exact hend.index
  · rw [← hrows (last - 2) (by omega) (by omega)]
    exact hend.miner
  · rw [← hlast, hend.admins, hcount]
  rw [← hlast, hend.miners, hcount]

theorem LogInv.addBlock {row' : ℕ → LedgerRow} {base' : ℕ}
    (hlog : LogInv row block base) (hge : -1 ≤ block) (hbase : base + 2 ≤ base')
    (hrows : ∀ i, 0 < i → i < base → row i = row' i)
    (hthis : ∀ i, base ≤ i → i < base' → (row' i).thisRow = i)
    (hreceived : ∀ i, base ≤ i → i < base' → (row' i).blockReceived = (block + 1).toNat)
    (hlinked : ∀ key, key.type ≠ MC_PTP_BLOCK_INDEX → LinkedAt (keyAt row') (prevAt row') key base')
    (hgrant : ∀ i, base ≤ i → i < base' - 1 → (row' i).key.type ≠ MC_PTP_BLOCK_INDEX)
    (hminer : ∃ address, (row' (base' - 2)).key = blockMinerKey address)
    (hindex : (row' (base' - 1)).key = blockIndexKey (block + 1).toNat)
    (hadmins : (row' (base' - 1)).adminCount =
      countAt row' MC_PTP_ADMIN base' ((block + 1).toNat + 1))
    (hminers : (row' (base' - 1)).minerCount =
      countAt row' MC_PTP_MINE base' ((block + 1).toNat + 1)) : LogInv row' (block + 1) base' := by
  have hpos := hlog.pos
  have hle : ∀ i, 0 < i → i < base → (row' i).blockReceived ≤ block := by
    intro i hi hlt
    rw [← hrows i hi hlt]
    exact hlog.received_le i hi hlt
  constructor
  · omega
  · intro i hi hlt
    by_cases hold : i < base
    · rw [← hrows i hi hold]
      exact hlog.thisRow i hi hold
    · exact hthis i (not_lt.mp hold) hlt
  · intro i hi hlt
    by_cases hold : i < base
    · have := hle i hi hold
      omega
    rw [hreceived i (not_lt.mp hold) hlt]
    omega
  · intro i j hi hij hlt
    by_cases hold : j < base
    · rw [← hrows i hi (by omega), ← hrows j (by omega) hold]
      exact hlog.received_mono i j hi hij hold
    rw [hreceived j (not_lt.mp hold) hlt]
    by_cases hold' : i < base
    · have := hle i hi hold'
      omega
    · rw [hreceived i (not_lt.mp hold') (by omega)]
  · exact hlinked
  · intro i hi hlt htype
    by_cases hold : i < base
    · rw [← hrows i hi hold] at htype ⊢
      exact hlog.indexKey i hi hold htype
    by_cases hlast : i = base' - 1
    · rw [hreceived i (not_lt.mp hold) hlt, hlast]
      exact hindex
    · exact absurd htype (hgrant i (not_lt.mp hold) (by omega))
  intro height hheight
  by_cases hnew : (height : ℤ) ≤ block
  · obtain ⟨last, hend⟩ := hlog.ends height hnew
    have hlast := hend.le_base
    refine ⟨last, hend.congr (by omega) (fun i hi hlt => hrows i hi (by omega)) ?_⟩
    intro i hi hlt
    by_cases hold : i < base
    · rw [← hrows i (by have := hend.two_lt; omega) hold]
      exact hend.beyond i hi hold
    rw [hreceived i (not_lt.mp hold) hlt]
    omega
  have heq : height = (block + 1).toNat := by omega
  subst heq
  refine ⟨base', by omega, le_rfl, ?_, fun i hi hlt => by omega, hindex, hminer,
    hadmins, hminers⟩
  intro i hi hlt
  by_cases hold : i < base
  · have := hle i hi hold
    omega
  exact (hreceived i (not_lt.mp hold) hlt).le

theorem LogInv.blockEnd_base {row : ℕ → LedgerRow} {block : ℤ} {base : ℕ}
    (hlog : LogInv row block base) (hrows : base ≠ 1) :
    0 ≤ block ∧ BlockEnd row base block.toNat base := by
  have hpos := hlog.pos
  have hreceived := hlog.received_le 1 (by omega) (by omega)
  have hblock : 0 ≤ block := by omega
  obtain ⟨last, hend⟩ := hlog.ends block.toNat (by omega)
  have htwo := hend.two_lt
  have hlast : last = base := by
    have hle := hend.le_base
    by_contra hne
    have hover := hend.beyond last le_rfl (by omega)
    have hreceived := hlog.received_le last (by omega) (by omega)
    omega
  exact ⟨hblock, hlast ▸ hend⟩

/-- The log depends only on the rows below its end. -/
theorem LogInv.congr {row' : ℕ → LedgerRow} (hlog : LogInv row block base)
    (hrows : ∀ i, 0 < i → i < base → row i = row' i) : LogInv row' block base := by
  have hkeys : ∀ i, 0 < i → i < base → keyAt row i = keyAt row' i :=
    fun i hi hlt => by rw [keyAt, keyAt, hrows i hi hlt]
  have hprevs : ∀ i, 0 < i → i < base → prevAt row i = prevAt row' i :=
    fun i hi hlt => by rw [prevAt, prevAt, hrows i hi hlt]
  constructor
  · exact hlog.pos
  · exact fun i hi hlt => hrows i hi hlt ▸ hlog.thisRow i hi hlt
  · exact fun i hi hlt => hrows i hi hlt ▸ hlog.received_le i hi hlt
  · intro i j hi hij hlt
    rw [← hrows i hi (by omega), ← hrows j (by omega) hlt]
    exact hlog.received_mono i j hi hij hlt
  · exact fun key htype => (hlog.linked key htype).congr hkeys hprevs
  · intro i hi hlt
    rw [← hrows i hi hlt]
    exact hlog.indexKey i hi hlt
  intro height hheight
  obtain ⟨last, hend⟩ := hlog.ends height hheight
  have htwo := hend.two_lt
  have hle := hend.le_base
  refine ⟨last, hend.congr hle (fun i hi hlt => hrows i hi (by omega)) ?_⟩
  intro i hi hlt
  rw [← hrows i (by omega) hlt]
  exact hend.beyond i hi hlt

/-- The first row above a height: the end of its block, or the first row of the
ledger before any block. -/
theorem LogInv.cut (hlog : LogInv row block base) {height : ℤ}
    (hge : -1 ≤ height) (hle : height ≤ block) : ∃ cut, 0 < cut ∧ cut ≤ base ∧
      (∀ i, 0 < i → i < cut → ((row i).blockReceived : ℤ) ≤ height) ∧
      (∀ i, cut ≤ i → i < base → height < ((row i).blockReceived : ℤ)) ∧
      (0 ≤ height → BlockEnd row base height.toNat cut) := by
  by_cases hneg : height < 0
  · have hpos := hlog.pos
    exact ⟨1, by omega, by omega, fun i hi hlt => by omega, fun i hi hlt => by omega,
      fun hzero => by omega⟩
  obtain ⟨cut, hend⟩ := hlog.ends height.toNat (by omega)
  have htwo := hend.two_lt
  refine ⟨cut, by omega, hend.le_base, ?_, ?_, fun _ => hend⟩
  · intro i hi hlt
    have := hend.under i hi hlt
    omega
  intro i hi hlt
  have := hend.beyond i hi hlt
  omega

/-- The blocks up to a height form a log of their own. -/
theorem LogInv.truncate (hlog : LogInv row block base) {height : ℤ} {cut : ℕ}
    (hpos : 0 < cut) (hcut : cut ≤ base) (hle : height ≤ block)
    (hunder : ∀ i, 0 < i → i < cut → ((row i).blockReceived : ℤ) ≤ height)
    (hover : ∀ i, cut ≤ i → i < base → height < ((row i).blockReceived : ℤ)) :
    LogInv row height cut := by
  constructor
  · exact hpos
  · exact fun i hi hlt => hlog.thisRow i hi (by omega)
  · exact hunder
  · exact fun i j hi hij hlt => hlog.received_mono i j hi hij (by omega)
  · exact fun key htype => (hlog.linked key htype).mono hcut
  · exact fun i hi hlt => hlog.indexKey i hi (by omega)
  intro low hlow
  obtain ⟨last, hend⟩ := hlog.ends low (by omega)
  have hlast : last ≤ cut := by
    by_contra hlt
    have hbase := hend.le_base
    have hreceived := hend.under cut hpos (by omega)
    have habove := hover cut le_rfl (by omega)
    omega
  exact ⟨last, hend.congr hlast (fun _ _ _ => rfl)
    fun i hi hlt => hend.beyond i hi (by omega)⟩

end Amberchain.Permission
