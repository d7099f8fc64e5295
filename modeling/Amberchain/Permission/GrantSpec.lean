import Amberchain.Permission.Reading

/-!
# What a grant does to the store

A grant appends well-linked rows of the next block to the mempool and moves the
counts; consensus decides only the block range that the rows show.
-/

namespace Amberchain.Permission

open RowChain

namespace Store

variable (params : ChainParams) (store : Store)

structure Settled (newRow lastRow row : LedgerRow) : Prop where
  shape : row =
    { newRow with
      consensus := row.consensus, blockFrom := row.blockFrom, blockTo := row.blockTo }
  range : row.blockFrom = newRow.blockFrom ∧ row.blockTo = newRow.blockTo ∨
    row.blockFrom = lastRow.blockFrom ∧ row.blockTo = lastRow.blockTo

variable {newRow lastRow result : LedgerRow}

theorem verifyConsensusLoop_settled :
    ∀ (fuel : ℕ) (row : LedgerRow) (tmpPool : List LedgerRow) (required : ℤ),
      store.verifyConsensusLoop newRow lastRow fuel row tmpPool required = .ok result →
      Settled newRow lastRow result := by
  intro fuel
  induction fuel with
  | zero =>
    intro row tmpPool required hok
    simp [verifyConsensusLoop] at hok
  | succ fuel ih =>
    intro row tmpPool required hok
    unfold verifyConsensusLoop at hok
    dsimp only at hok
    split at hok
    · cases hok
      exact ⟨rfl, .inl ⟨rfl, rfl⟩⟩
    split at hok
    · cases hok
      exact ⟨rfl, .inr ⟨rfl, rfl⟩⟩
    split at hok
    · cases hok
    split at hok
    · cases hok
      exact ⟨rfl, .inr ⟨rfl, rfl⟩⟩
    exact ih _ _ _ hok

theorem verifyConsensus_settled (hok : store.verifyConsensus params newRow lastRow = .ok result) :
    Settled newRow lastRow result := by
  unfold verifyConsensus at hok
  dsimp only at hok
  split at hok
  · cases hok
    exact ⟨rfl, .inl ⟨rfl, rfl⟩⟩
  have hsettled := store.verifyConsensusLoop_settled _ _ _ _ hok
  exact ⟨hsettled.shape, hsettled.range⟩

structure NextRow (row : LedgerRow) : Prop where
  prevRow : row.prevRow = (store.permissionRow row.key true).thisRow
  blockReceived : row.blockReceived = store.nextBlock
  thisRow : row.thisRow = store.row
  grantType : isGrantType row.key.type = true

structure Appended (row : LedgerRow) (next : Store) : Prop where
  nextRow : store.NextRow row
  memPool : next.memPool = store.memPool ++ [row]
  frame : ∃ adminCount minerCount,
    next = { (store.saveClearedCounts.addMemPool row) with
      adminCount := adminCount, minerCount := minerCount }

theorem saveClearedCounts_memPool : store.saveClearedCounts.memPool = store.memPool := by
  unfold saveClearedCounts
  split <;> rfl

theorem adjustCounts_frame (key : PermKey) (lastAllowed : PermType) :
    ∃ adminCount minerCount, store.adjustCounts key lastAllowed =
      { store with adminCount := adminCount, minerCount := minerCount } := by
  unfold adjustCounts
  split
  · exact ⟨_, _, rfl⟩
  split
  · exact ⟨_, _, rfl⟩
  exact ⟨_, _, rfl⟩

theorem adminConsensus_ne_zero (entity : Hash256) (type : PermType) :
    store.adminConsensus params entity type ≠ 0 := by
  have hone : (1 : BitVec 32) ≠ 0 := by decide
  unfold adminConsensus
  split
  · exact hone
  split
  · exact hone
  dsimp only
  split
  · exact hone
  generalize store.getAdminCount params * _ - 1 = total
  intro hzero
  have hnat := congrArg BitVec.toNat hzero
  change (total.toNat / 1000000 + 1) % 2 ^ 32 = 0 at hnat
  omega

theorem verifyConsensusLoop_cases :
    ∀ (fuel : ℕ) (row : LedgerRow) (tmpPool : List LedgerRow) (required : ℤ),
      store.verifyConsensusLoop newRow lastRow fuel row tmpPool required = .ok result →
      result = newRow ∨
        result.blockFrom = lastRow.blockFrom ∧ result.blockTo = lastRow.blockTo := by
  intro fuel
  induction fuel with
  | zero =>
    intro row tmpPool required hok
    simp [verifyConsensusLoop] at hok
  | succ fuel ih =>
    intro row tmpPool required hok
    unfold verifyConsensusLoop at hok
    dsimp only at hok
    split at hok
    · cases hok
      exact .inl rfl
    split at hok
    · cases hok
      exact .inr ⟨rfl, rfl⟩
    split at hok
    · cases hok
    split at hok
    · cases hok
      exact .inr ⟨rfl, rfl⟩
    exact ih _ _ _ hok

theorem verifyConsensus_waits (hok : store.verifyConsensus params newRow lastRow = .ok result)
    (hwaits : result.consensus = 0) :
    result.blockFrom = lastRow.blockFrom ∧ result.blockTo = lastRow.blockTo := by
  have hneeded := store.adminConsensus_ne_zero params newRow.key.entity newRow.key.type
  unfold verifyConsensus at hok
  dsimp only at hok
  split at hok
  · cases hok
    exact absurd hwaits hneeded
  rcases store.verifyConsensusLoop_cases _ _ _ _ hok with heq | hrange
  · rw [heq] at hwaits
    exact absurd hwaits hneeded
  exact hrange

/-- The store adds a row of a grant: the row waits with the last range or has
consensus, and the counts follow it. -/
structure Adds (row : LedgerRow) (next : Store) : Prop where
  appended : store.Appended row next
  waits : row.consensus = 0 → row.blockFrom = (store.permissionRow row.key true).blockFrom ∧
    row.blockTo = (store.permissionRow row.key true).blockTo
  counted : next = (store.saveClearedCounts.addMemPool row).adjustCounts row.key
    (store.getPermission row.key true).1

structure GrantKey (grant : Grant) (key : PermKey) : Prop where
  entity : key.entity = grant.entity
  address : key.address = grant.address
  mask : key.type &&& grant.type ≠ 0

/-- A row that passed the consensus check is added with its counts. -/
theorem adds_of_verified (grant : Grant) {type : PermType} (htype : isGrantType type = true)
    {row : LedgerRow} (hok : store.verifyConsensus params (store.grantRow grant type
          (store.getPermission ⟨grant.entity, grant.address, type⟩ true).2)
        (store.getPermission ⟨grant.entity, grant.address, type⟩ true).2 = .ok row) :
    row.key = ⟨grant.entity, grant.address, type⟩ ∧
      store.Adds row ((store.saveClearedCounts.addMemPool row).adjustCounts
        ⟨grant.entity, grant.address, type⟩
        (store.getPermission ⟨grant.entity, grant.address, type⟩ true).1) := by
  have hsettled := store.verifyConsensus_settled params hok
  have hkey : row.key = ⟨grant.entity, grant.address, type⟩ := by
    rw [hsettled.shape]
    rfl
  refine ⟨hkey, ⟨⟨⟨?_, ?_, ?_, ?_⟩, ?_, ?_⟩, ?_, ?_⟩⟩
  · rw [hsettled.shape]
    rfl
  · rw [hsettled.shape]
    rfl
  · rw [hsettled.shape]
    rfl
  · rw [hkey]
    exact htype
  · obtain ⟨admins, miners, hframe⟩ :=
      (store.saveClearedCounts.addMemPool row).adjustCounts_frame
        ⟨grant.entity, grant.address, type⟩
        (store.getPermission ⟨grant.entity, grant.address, type⟩ true).1
    rw [hframe]
    simp [addMemPool, saveClearedCounts_memPool]
  · exact adjustCounts_frame _ _ _
  · rw [hkey]
    exact store.verifyConsensus_waits params hok
  rw [hkey]

theorem setType_adds (grant : Grant) {type : PermType} (htype : isGrantType type = true) :
    (store.setType params grant type).1 = store ∨
      ∃ row, row.key = ⟨grant.entity, grant.address, type⟩ ∧
        store.Adds row (store.setType params grant type).1 ∧
        (store.setType params grant type).2 = none := by
  unfold setType
  dsimp only
  split
  · exact .inl rfl
  rename_i row hok
  split
  · obtain ⟨hkey, hadds⟩ := store.adds_of_verified params grant htype hok
    exact .inr ⟨row, hkey, hadds, rfl⟩
  exact .inl rfl

theorem setType_cases (grant : Grant) {type : PermType} (htype : isGrantType type = true) :
    (store.setType params grant type).1 = store ∨
      ∃ row, row.key = ⟨grant.entity, grant.address, type⟩ ∧
        store.Appended row (store.setType params grant type).1 ∧
        (store.setType params grant type).2 = none := by
  refine (store.setType_adds params grant htype).imp_right ?_
  rintro ⟨row, hkey, hadds, herr⟩
  exact ⟨row, hkey, hadds.appended, herr⟩

theorem isGrantType_of_mem {type : PermType}
    (hmem : type ∈ permissionTypes params) : isGrantType type = true := by
  have hgrant : ∀ types : List PermType, types.all isGrantType = true →
      ∀ other ∈ types, isGrantType other = true :=
    fun types hall other hother => List.all_eq_true.mp hall other hother
  simp only [permissionTypes, List.mem_append] at hmem
  rcases hmem with ((hbase | hstreams) | hrest) | hupgrades
  · exact hgrant _ (by decide) type hbase
  · split at hstreams
    · exact hgrant _ (by decide) type hstreams
    · cases hstreams
  · exact hgrant _ (by decide) type hrest
  split at hupgrades
  · exact hgrant _ (by decide) type hupgrades
  cases hupgrades

end Store

end Amberchain.Permission
