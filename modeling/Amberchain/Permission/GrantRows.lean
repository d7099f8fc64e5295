import Amberchain.Permission.Runs

/-!
# The rows of a grant

A grant appends rows that say what it says.  Rows of other keys do not change what a
lookup finds, so who may sign a grant changes only with rows of the admin and activate
types.
-/

namespace Amberchain.Permission

open RowChain

structure GrantRow (params : ChainParams) (grant : Grant) (row : LedgerRow) : Prop where
  entity : row.key.entity = grant.entity
  address : row.key.address = grant.address
  type : row.key.type ∈ Store.permissionTypes params
  mask : row.key.type &&& grant.type ≠ 0
  granted : row.grantFrom = grant.blockFrom ∧ row.grantTo = grant.blockTo
  admin : row.admin = grant.admin ∨ row.admin = grant.address

namespace Store

variable {params : ChainParams} {store next : Store} {grant : Grant} {row : LedgerRow}

structure Grants (params : ChainParams) (grant : Grant) (store : Store) (row : LedgerRow)
    (next : Store) : Prop where
  appended : store.Appended row next
  ofGrant : GrantRow params grant row
  adminCount : row.key.type ≠ MC_PTP_ADMIN → next.adminCount = store.adminCount

theorem adminCount_saveClearedCounts : store.saveClearedCounts.adminCount = store.adminCount := by
  unfold saveClearedCounts
  split <;> rfl

theorem adminCount_adjustCounts {key : PermKey} (lastAllowed : PermType)
    (htype : key.type ≠ MC_PTP_ADMIN) :
    (store.adjustCounts key lastAllowed).adminCount = store.adminCount := by
  unfold adjustCounts
  rw [if_neg fun h => htype h.2]
  split <;> rfl

theorem grantRow_of_verified {type : PermType} {newRow : LedgerRow} {lastRow : LedgerRow}
    (hmem : type ∈ permissionTypes params) (hmask : type &&& grant.type ≠ 0)
    (hverified : store.verifyConsensus params (store.grantRow grant type lastRow) lastRow
      = .ok newRow) : GrantRow params grant newRow := by
  have hshape := (store.verifyConsensus_settled params hverified).shape
  have hkey : newRow.key = ⟨grant.entity, grant.address, type⟩ := by rw [hshape]; rfl
  refine ⟨by rw [hkey], by rw [hkey], by rwa [hkey], by rwa [hkey], ?_, ?_⟩
  · rw [hshape]
    exact ⟨rfl, rfl⟩
  have hadmin : newRow.admin
      = if store.adminCount ≠ 0 then grant.admin else grant.address := by rw [hshape]; rfl
  rw [hadmin]
  split
  · exact .inl rfl
  exact .inr rfl

theorem setType_grants {type : PermType} (hmem : type ∈ permissionTypes params)
    (hmask : type &&& grant.type ≠ 0) : (store.setType params grant type).1 = store
      ∨ ∃ row, store.Grants params grant row (store.setType params grant type).1 := by
  have hcases := store.setType_cases params grant (isGrantType_of_mem params hmem)
  unfold setType at hcases ⊢
  dsimp only at hcases ⊢
  split
  · exact .inl rfl
  next row hverified =>
    rw [hverified] at hcases
    dsimp only at hcases
    split
    next hupdate =>
      rw [if_pos hupdate] at hcases
      refine hcases.imp_right ?_
      rintro ⟨row', hkey, happended, -⟩
      have hsame : row' = row := by
        have hmemPool := happended.memPool
        obtain ⟨_, _, hframe⟩ := (store.saveClearedCounts.addMemPool row).adjustCounts_frame
          ⟨grant.entity, grant.address, type⟩
          (store.getPermission ⟨grant.entity, grant.address, type⟩ true).1
        rw [hframe] at hmemPool
        simpa [addMemPool, saveClearedCounts_memPool] using hmemPool.symm
      subst hsame
      refine ⟨row', happended, grantRow_of_verified hmem hmask hverified, fun htype => ?_⟩
      rw [hkey] at htype
      rw [adminCount_adjustCounts _ htype]
      exact adminCount_saveClearedCounts
    · exact .inl rfl

variable {motive : Store → Prop}

/-- A property that survives every row of a grant survives the grant. -/
theorem setTypes_grants
    (hstep : ∀ store row next, motive store → store.Grants params grant row next → motive next) :
    ∀ (types : List PermType),
      (∀ type ∈ types, type ∈ permissionTypes params ∧ type &&& grant.type ≠ 0) →
      ∀ store, motive store → motive (setTypes params grant types store).1 := by
  intro types
  induction types with
  | nil => exact fun _ store hstore => hstore
  | cons type types ih =>
    intro htypes store hstore
    obtain ⟨⟨hmem, hmask⟩, htail⟩ := List.forall_mem_cons.mp htypes
    have hnext : motive (store.setType params grant type).1 := by
      have hset : (store.setType params grant type).1 = store
          ∨ ∃ row, store.Grants params grant row (store.setType params grant type).1 :=
        setType_grants hmem hmask
      rcases hset with hsame | ⟨row, hgrants⟩
      · rwa [hsame]
      · exact hstep store row _ hstore hgrants
    unfold setTypes
    split
    next next hset =>
      rw [hset] at hnext
      exact ih htail next hnext
    next next err hset =>
      rwa [hset] at hnext

theorem setPermissionInternal_grants
    (hstep : ∀ store row next, motive store → store.Grants params grant row next → motive next)
    (hstore : motive store) : motive (store.setPermissionInternal params grant).1 := by
  refine setTypes_grants hstep _ (fun type hmem => ?_) store hstore
  obtain ⟨hmem, hmask⟩ := List.mem_filter.mp hmem
  exact ⟨hmem, of_decide_eq_true hmask⟩

theorem setPermission_grants (hflags : grant.flags &&& MC_PFL_ENTITY_GENESIS = 0)
    (hstep : store.mayGrant params grant.entity grant.type grant.admin = true →
      ∀ store row next, motive store → store.Grants params grant row next → motive next)
    (hstore : motive store) : motive (store.setPermission params grant).1 := by
  unfold setPermission
  split
  · exact hstore
  next hmay =>
    refine setPermissionInternal_grants (hstep ?_) hstore
    by_contra hnot
    exact hmay ⟨.inr hflags, hnot⟩

theorem forall_permissionTypes {property : PermType → Bool}
    (hall : [MC_PTP_CONNECT, MC_PTP_SEND, MC_PTP_RECEIVE, MC_PTP_WRITE, MC_PTP_CREATE,
      MC_PTP_ISSUE, MC_PTP_MINE, MC_PTP_ACTIVATE, MC_PTP_ADMIN, MC_PTP_UPGRADE].all property
        = true) : ∀ type ∈ permissionTypes params, property type = true := by
  intro type hmem
  refine List.all_eq_true.mp hall type ?_
  simp only [permissionTypes, List.mem_append, List.mem_cons, List.not_mem_nil, or_false] at hmem ⊢
  rcases hmem with ((hbase | hstreams) | hrest) | hupgrades
  · tauto
  · split at hstreams
    · simp only [List.mem_cons, List.not_mem_nil, or_false] at hstreams
      tauto
    · cases hstreams
  · tauto
  split at hupgrades
  · simp only [List.mem_cons, List.not_mem_nil, or_false] at hupgrades
    tauto
  cases hupgrades

def adminTypes : PermType :=
  MC_PTP_ADMIN ||| MC_PTP_ISSUE ||| MC_PTP_MINE ||| MC_PTP_ACTIVATE ||| MC_PTP_CREATE

theorem isActivateEnough_of_mask {type mask : PermType} (hmem : type ∈ permissionTypes params)
    (hmask : type &&& mask ≠ 0) (henough : isActivateEnough mask = true) :
    isActivateEnough type = true := by
  have hcases := @forall_permissionTypes params
    (fun type => isActivateEnough type || decide (type = type &&& adminTypes)) (by decide) type hmem
  rw [Bool.or_eq_true, decide_eq_true_eq] at hcases
  refine hcases.resolve_right fun htype => hmask ?_
  have hnone : mask &&& adminTypes = 0 := of_decide_eq_true henough
  calc type &&& mask = type &&& adminTypes &&& mask := by rw [← htype]
    _ = type &&& (mask &&& adminTypes) := by rw [BitVec.and_assoc, BitVec.and_comm adminTypes]
    _ = 0 := by rw [hnone]; exact BitVec.and_zero

theorem mayGrant_of_mask {type mask : PermType} {entity : Hash256} {admin : Hash160}
    (hmem : type ∈ permissionTypes params) (hmask : type &&& mask ≠ 0)
    (hmay : store.mayGrant params entity mask admin = true) :
    store.mayGrant params entity type admin = true := by
  unfold mayGrant at hmay ⊢
  rw [decide_eq_true_eq] at hmay ⊢
  exact hmay.imp_right fun h => ⟨isActivateEnough_of_mask hmem hmask h.1, h.2⟩

/-- The rows of an approval are of the connect and upgrade types. -/
theorem setApproval_grants {approval : Approval} {motive : Store → Prop}
    (hstep : ∀ grant store row next, motive store → store.Grants params grant row next →
      row.key.type = MC_PTP_CONNECT ∨ row.key.type = MC_PTP_UPGRADE → motive next)
    (hstore : motive store) : motive (store.setApproval params approval).1 := by
  have htype {grant : Grant} (hgrant : grant.type = MC_PTP_CONNECT ∨ grant.type = MC_PTP_UPGRADE)
      {row : LedgerRow} (hrow : GrantRow params grant row) :
      row.key.type = MC_PTP_CONNECT ∨ row.key.type = MC_PTP_UPGRADE := by
    have hcases := @forall_permissionTypes params
      (fun type => (decide (type &&& MC_PTP_CONNECT = 0) || decide (type = MC_PTP_CONNECT))
        && (decide (type &&& MC_PTP_UPGRADE = 0) || decide (type = MC_PTP_UPGRADE)))
      (by decide) row.key.type hrow.type
    simp only [Bool.and_eq_true, Bool.or_eq_true, decide_eq_true_eq] at hcases
    have hmask := hrow.mask
    rcases hgrant with hgrant | hgrant
    · rw [hgrant] at hmask
      exact .inl (hcases.1.resolve_left hmask)
    rw [hgrant] at hmask
    exact .inr (hcases.2.resolve_left hmask)
  have hroot : motive (if store.permission ⟨upgradeEntity, 0, MC_PTP_CONNECT⟩ = 0 then
      store.setPermissionInternal params (upgradeRoot approval)
    else (store, none)).1 := by
    split
    · exact setPermissionInternal_grants (fun current row next hcurrent hgrants =>
        hstep _ current row next hcurrent hgrants (htype (.inl rfl) hgrants.ofGrant)) hstore
    · exact hstore
  unfold setApproval
  dsimp only
  split
  next next err hset =>
    rwa [hset] at hroot
  next next hset =>
    rw [hset] at hroot
    split
    · refine setPermissionInternal_grants (fun current row next hcurrent hgrants =>
        hstep _ current row next hcurrent hgrants (htype ?_ hgrants.ofGrant)) hroot
      unfold approvalGrant
      split
      · exact .inl rfl
      · exact .inr rfl
    exact hroot

/-- A row of another key does not change what a lookup finds. -/
theorem Appended.permission_eq (hlive : Live store) (happended : store.Appended row next)
    {key : PermKey} (hkey : row.key ≠ key) (htype : key.type ≠ MC_PTP_BLOCK_INDEX) :
    next.permission key = store.permission key := by
  have hnext := hlive.append happended
  have hextends := happended.extends hlive.pool.toPoolChain (hlive.showsBelow happended.type_ne)
  have hbefore := hlive.pool.rowAt htype (hlive.showsBelow htype)
  have hafter := hnext.pool.rowAt htype (hnext.showsBelow htype)
  have hrows : ∀ i, 0 < i → i < store.row → next.logRow i = store.logRow i :=
    fun i _ hlt => hextends.logRow_of_lt_row hlive.pool.toPoolChain hlt
  have hlast : newestRow next.logRow key next.row = newestRow next.logRow key store.row := by
    rw [hextends.nextRow]
    refine lastRow_succ_of_ne ?_
    unfold keyAt
    rwa [hextends.logRow_row hlive.pool.toPoolChain]
  have hnewest : newest next.logRow key next.row = newest store.logRow key store.row := by
    rw [← newest_congr key hrows]
    unfold newest
    rw [hlast]
  have hrange : inRange (next.permissionRow key true) next.nextBlock
      = inRange (store.permissionRow key true) store.nextBlock := by
    rw [hextends.nextBlock_eq]
    unfold inRange
    rw [hafter.blockFrom, hafter.blockTo, hbefore.blockFrom, hbefore.blockTo, hnewest]
  unfold permission getPermission
  dsimp only
  rw [hrange]

structure SameSigners (params : ChainParams) (start store : Store) : Prop where
  canAdmin : ∀ entity address,
    store.canAdmin params entity address = start.canAdmin params entity address
  canActivate : ∀ entity address,
    store.canActivate params entity address = start.canActivate params entity address

theorem SameSigners.mayGrant_eq {start : Store} (hsame : SameSigners params start store)
    (entity : Hash256) (type : PermType) (admin : Hash160) :
    store.mayGrant params entity type admin = start.mayGrant params entity type admin := by
  unfold mayGrant
  rw [hsame.canAdmin, hsame.canActivate]

theorem Grants.sameSigners (hlive : Live store) (hgrants : store.Grants params grant row next)
    (hadmin : row.key.type ≠ MC_PTP_ADMIN) (hactivate : row.key.type ≠ MC_PTP_ACTIVATE) :
    SameSigners params store next := by
  have hcanAdmin (entity : Hash256) (address : Hash160) :
      next.canAdmin params entity address = store.canAdmin params entity address := by
    unfold canAdmin
    rw [hgrants.adminCount hadmin, hgrants.appended.block_eq,
      hgrants.appended.permission_eq hlive (fun hkey => hadmin (by rw [hkey]))
        (show MC_PTP_ADMIN ≠ MC_PTP_BLOCK_INDEX by decide)]
  refine ⟨hcanAdmin, fun entity address => ?_⟩
  unfold canActivate
  rw [hcanAdmin,
    hgrants.appended.permission_eq hlive (fun hkey => hactivate (by rw [hkey]))
      (show MC_PTP_ACTIVATE ≠ MC_PTP_BLOCK_INDEX by decide)]

theorem SameSigners.trans {start : Store} (hfirst : SameSigners params start store)
    (hsecond : SameSigners params store next) : SameSigners params start next where
  canAdmin := fun entity address =>
    (hsecond.canAdmin entity address).trans (hfirst.canAdmin entity address)
  canActivate := fun entity address =>
    (hsecond.canActivate entity address).trans (hfirst.canActivate entity address)

/-- The store is `start` with more rows in the mempool, all of them with the property. -/
structure RowsAdded (property : LedgerRow → Prop) (start store : Store) : Prop where
  db : store.db = start.db
  ledger : store.ledger = start.ledger
  block : store.block = start.block
  copiedRow : store.copiedRow = start.copiedRow
  memPool : ∃ rows, store.memPool = start.memPool ++ rows ∧ ∀ row ∈ rows, property row

theorem RowsAdded.append {property : LedgerRow → Prop} {start : Store}
    (hadded : RowsAdded property start store) (happended : store.Appended row next)
    (hrow : property row) : RowsAdded property start next := by
  obtain ⟨rows, hrows, hproperty⟩ := hadded.memPool
  refine ⟨happended.db_eq.trans hadded.db, happended.ledger_eq.trans hadded.ledger,
    happended.block_eq.trans hadded.block, happended.copiedRow_eq.trans hadded.copiedRow,
    rows ++ [row], ?_, ?_⟩
  · rw [happended.memPool, hrows, List.append_assoc]
  intro other hmem
  rcases List.mem_append.mp hmem with hold | hnew
  · exact hproperty other hold
  rwa [List.mem_singleton.mp hnew]

end Store

end Amberchain.Permission
