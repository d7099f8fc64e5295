import Amberchain.Permission.GrantSpec

/-!
# Grants and checkpoints keep the invariant

Everything that happens between two blocks only appends mempool rows or cuts
them off again.
-/

namespace Amberchain.Permission

open RowChain

namespace Store

variable (params : ChainParams) {store : Store}

variable {motive : Store → Prop}

/-- A property that survives every added row survives a grant. -/
theorem setTypes_adds {listed : PermType → Prop} (grant : Grant)
    (hstep : ∀ store row next type, motive store → store.Adds row next → listed type →
      row.key = ⟨grant.entity, grant.address, type⟩ → motive next) :
    ∀ (types : List PermType), (∀ type ∈ types, isGrantType type = true ∧ listed type) →
      ∀ store, motive store → motive (setTypes params grant types store).1 := by
  intro types
  induction types with
  | nil => intro _ store hstore; exact hstore
  | cons type types ih =>
    intro hgrant store hstore
    obtain ⟨htype, hlisted⟩ := hgrant type (by simp)
    have hnext : motive (store.setType params grant type).1 := by
      rcases store.setType_adds params grant htype with hsame | ⟨row, hkey, hadds, _⟩
      · rwa [hsame]
      · exact hstep store row _ type hstore hadds hlisted hkey
    unfold setTypes
    split
    · rename_i next hset
      rw [hset] at hnext
      exact ih (fun other hother => hgrant other (by simp [hother])) next hnext
    rename_i next err hset
    rwa [hset] at hnext

section

variable (grant : Grant)
  (hstep : ∀ store row next, motive store → store.Adds row next → GrantKey grant row.key → motive next)
  (hstore : motive store)

include grant hstep hstore

theorem setPermissionInternal_adds : motive (store.setPermissionInternal params grant).1 := by
  refine setTypes_adds params grant (fun store row next type hstore hadds hmask hkey =>
    hstep store row next hstore hadds (hkey ▸ ⟨rfl, rfl, hmask⟩)) _ (fun type hmem => ?_) store
    hstore
  obtain ⟨hmem, hmask⟩ := List.mem_filter.mp hmem
  exact ⟨isGrantType_of_mem params hmem, of_decide_eq_true hmask⟩

theorem setPermission_adds : motive (store.setPermission params grant).1 := by
  unfold setPermission
  split
  · exact hstore
  exact setPermissionInternal_adds params grant hstep hstore

end

theorem setApproval_adds (approval : Approval)
    (hstep : ∀ store row next, motive store → store.Adds row next →
      row.key.entity = upgradeEntity → motive next)
    (hstore : motive store) : motive (store.setApproval params approval).1 := by
  have hrooted : motive (if store.permission ⟨upgradeEntity, 0, MC_PTP_CONNECT⟩ = 0 then
      store.setPermissionInternal params (upgradeRoot approval)
    else (store, none)).1 := by
    split
    · exact setPermissionInternal_adds params _
        (fun store row next h hadds hkey => hstep store row next h hadds hkey.entity) hstore
    · exact hstore
  unfold setApproval
  dsimp only
  split
  · rename_i next err hset
    rwa [hset] at hrooted
  rename_i next hset
  rw [hset] at hrooted
  split
  · exact setPermissionInternal_adds params _
      (fun store row next h hadds hkey => hstep store row next h hadds hkey.entity) hrooted
  exact hrooted

theorem setPermission_induct (grant : Grant)
    (hstep : ∀ store row next, motive store → store.Appended row next → motive next)
    (hstore : motive store) : motive (store.setPermission params grant).1 :=
  setPermission_adds params grant
    (fun store row next h hadds _ => hstep store row next h hadds.appended) hstore

theorem setApproval_induct (approval : Approval)
    (hstep : ∀ store row next, motive store → store.Appended row next → motive next)
    (hstore : motive store) : motive (store.setApproval params approval).1 :=
  setApproval_adds params approval
    (fun store row next h hadds _ => hstep store row next h hadds.appended) hstore

namespace Appended

variable {row : LedgerRow} {next : Store} (happ : store.Appended row next)

include happ

theorem eq_update : ∃ adminCount minerCount clearedAdminCount clearedMinerCount
    clearedMinerCountForMinerVerification, next = { store with
        memPool := store.memPool ++ [row]
        row := store.row + 1
        adminCount := adminCount
        minerCount := minerCount
        clearedAdminCount := clearedAdminCount
        clearedMinerCount := clearedMinerCount
        clearedMinerCountForMinerVerification :=
          clearedMinerCountForMinerVerification } := by
  obtain ⟨adminCount, minerCount, hframe⟩ := happ.frame
  rw [hframe]
  unfold addMemPool saveClearedCounts
  split <;> exact ⟨_, _, _, _, _, rfl⟩

theorem row_eq : next.row = store.row + 1 := by
  obtain ⟨_, _, _, _, _, rfl⟩ := happ.eq_update
  rfl

theorem db_eq : next.db = store.db := by
  obtain ⟨_, _, _, _, _, rfl⟩ := happ.eq_update
  rfl

theorem ledger_eq : next.ledger = store.ledger := by
  obtain ⟨_, _, _, _, _, rfl⟩ := happ.eq_update
  rfl

theorem block_eq : next.block = store.block := by
  obtain ⟨_, _, _, _, _, rfl⟩ := happ.eq_update
  rfl

theorem copiedRow_eq : next.copiedRow = store.copiedRow := by
  obtain ⟨_, _, _, _, _, rfl⟩ := happ.eq_update
  rfl

end Appended

/-- `next` has one more row than `store`, linked to the newest row of its
key. -/
structure Extends (store : Store) (row : LedgerRow) (next : Store) : Prop where
  memPool : next.memPool = store.memPool ++ [row]
  nextRow : next.row = store.row + 1
  ledger : next.ledger = store.ledger
  block : next.block = store.block
  thisRow : row.thisRow = store.row
  received : row.blockReceived = store.nextBlock
  prevRow : row.key.type ≠ MC_PTP_BLOCK_INDEX →
    row.prevRow = newestRow store.logRow row.key store.row

namespace Extends

variable {row : LedgerRow} {next : Store} (hext : Extends store row next)

include hext

theorem nextBlock_eq : next.nextBlock = store.nextBlock := by
  rw [nextBlock, nextBlock, hext.block]

theorem memPoolStart_eq : next.memPoolStart = store.memPoolStart := by
  simp only [memPoolStart, hext.nextRow, hext.memPool, List.length_append, List.length_singleton]
  omega

theorem logRow_of_lt_row (hpool : PoolChain store) {i : ℕ} (hlt : i < store.row) :
    next.logRow i = store.logRow i := by
  by_cases hbelow : i < store.memPoolStart
  · rw [logRow_of_lt hbelow, logRow_of_lt (by rwa [hext.memPoolStart_eq]), hext.ledger]
  have hge := not_lt.mp hbelow
  have hend := hpool.start_add_length
  rw [logRow_of_ge hge, logRow_of_ge (by rwa [hext.memPoolStart_eq]),
    hext.memPoolStart_eq, hext.memPool, List.getD_append _ _ _ _ (by omega)]

theorem logRow_row (hpool : PoolChain store) : next.logRow store.row = row := by
  have hend := hpool.start_add_length
  rw [logRow_of_ge (by rw [hext.memPoolStart_eq]; omega), hext.memPoolStart_eq,
    hext.memPool, List.getD_append_right _ _ _ _ (by omega)]
  have hindex : store.row - store.memPoolStart - store.memPool.length = 0 := by omega
  rw [hindex]
  rfl

/-- The longer mempool is as well linked as the old one. -/
theorem poolChain (hpool : PoolChain store) : PoolChain next := by
  have hold := fun i hlt => hext.logRow_of_lt_row hpool (i := i) hlt
  have hnew := hext.logRow_row hpool
  have hcase : ∀ i, i < next.row → i < store.row ∨ i = store.row := by
    intro i hlt
    rw [hext.nextRow] at hlt
    omega
  constructor
  · rw [hext.memPool, hext.nextRow, List.length_append, List.length_singleton]
    have hle := hpool.le_row
    omega
  · intro i hge hlt
    rw [hext.memPoolStart_eq] at hge
    rcases hcase i hlt with hbefore | rfl
    · rw [hold i hbefore]
      exact hpool.thisRow i hge hbefore
    rw [hnew]
    exact hext.thisRow
  intro key htype
  rw [hext.nextRow]
  have hkeys : ∀ i, 0 < i → i < store.row →
      keyAt store.logRow i = keyAt next.logRow i := fun i _ hlt => by
    rw [keyAt, keyAt, hold i hlt]
  have hprevs : ∀ i, 0 < i → i < store.row →
      prevAt store.logRow i = prevAt next.logRow i := fun i _ hlt => by
    rw [prevAt, prevAt, hold i hlt]
  refine ((hpool.linked key htype).congr hkeys hprevs).succ fun hkey => ?_
  have hrowkey : row.key = key := by rw [← hnew]; exact hkey
  rw [← lastRow_congr key hkeys, prevAt, hnew, hext.prevRow (hrowkey ▸ htype), hrowkey]

theorem poolInv (hpool : PoolInv store) : PoolInv next where
  toPoolChain := hext.poolChain hpool.toPoolChain
  received := fun i hge hlt => by
    rw [hext.memPoolStart_eq] at hge
    rw [hext.nextRow] at hlt
    rw [hext.nextBlock_eq]
    rcases Nat.lt_succ_iff_lt_or_eq.mp hlt with hbefore | rfl
    · rw [hext.logRow_of_lt_row hpool.toPoolChain hbefore]
      exact hpool.received i hge hbefore
    rw [hext.logRow_row hpool.toPoolChain]
    exact hext.received

end Extends

theorem Appended.extends {row : LedgerRow} {next : Store}
    (happ : store.Appended row next) (hpool : PoolChain store)
    (hshows : store.ShowsBelow row.key store.memPoolStart) : Extends store row next where
  memPool := happ.memPool
  nextRow := happ.row_eq
  ledger := happ.ledger_eq
  block := happ.block_eq
  thisRow := happ.nextRow.thisRow
  received := happ.nextRow.blockReceived
  prevRow := fun htype => happ.nextRow.prevRow.trans
    (hpool.rowAt htype hshows).thisRow

theorem Appended.type_ne {row : LedgerRow} {next : Store}
    (happ : store.Appended row next) : row.key.type ≠ MC_PTP_BLOCK_INDEX := by
  have hgrant := happ.nextRow.grantType
  simp only [isGrantType, decide_eq_true_eq] at hgrant
  exact hgrant.2

theorem Live.append_memPoolStart {row : LedgerRow} {next : Store} (hlive : Live store)
    (happ : store.Appended row next) : next.memPoolStart = store.memPoolStart :=
  (happ.extends hlive.pool.toPoolChain (hlive.showsBelow happ.type_ne)).memPoolStart_eq

/-- A row appended outside a fork verification keeps the invariant. -/
theorem Live.append {row : LedgerRow} {next : Store} (hlive : Live store)
    (happ : store.Appended row next) : Live next := by
  have htype := happ.type_ne
  have hcleared : next.clearedAdminCount = store.clearedAdminCount ∧
      next.clearedMinerCount = store.clearedMinerCount := by
    obtain ⟨_, _, hframe⟩ := happ.frame
    rw [hframe]
    unfold addMemPool saveClearedCounts
    split
    · rename_i hempty
      exact hlive.counts hempty.1
    · exact ⟨rfl, rfl⟩
  have hext := happ.extends hlive.pool.toPoolChain (hlive.showsBelow htype)
  constructor
  · rw [happ.db_eq, happ.ledger_eq, happ.block_eq, hext.memPoolStart_eq]
    exact hlive.files
  · exact hext.poolInv hlive.pool
  · intro other hmem
    rw [happ.memPool, List.mem_append, List.mem_singleton] at hmem
    rcases hmem with hold | rfl
    · exact hlive.grantType other hold
    · exact happ.nextRow.grantType
  · rw [happ.copiedRow_eq, hlive.notForking]
  · rw [hcleared.1, hlive.clearedAdmins, happ.ledger_eq, hext.memPoolStart_eq, hext.nextBlock_eq]
  · rw [hcleared.2, hlive.clearedMiners, happ.ledger_eq, hext.memPoolStart_eq, hext.nextBlock_eq]
  intro hempty
  rw [happ.memPool] at hempty
  exact absurd hempty (List.append_ne_nil_of_right_ne_nil _ (by simp))

end Store

end Amberchain.Permission
