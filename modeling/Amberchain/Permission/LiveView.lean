import Amberchain.Permission.RollBackBlocks

/-!
# The live view of the store

Two stores with one live view answer every lookup alike, and every call takes
them to stores with one live view again.
-/

namespace Amberchain.Permission

namespace Store

variable (params : ChainParams) {store other : Store}

section

variable (hfork : store.copiedRow = 0)

include hfork

theorem committedRow_liveView (key : PermKey) :
    store.liveView.committedRow key = store.committedRow key := by
  have hview : store.liveView.copiedRow = 0 := hfork
  unfold committedRow
  simp only [hfork, hview, lt_irrefl, false_and, if_false]
  rfl

theorem permissionRow_liveView (key : PermKey) (checkMempool : Bool) :
    store.liveView.permissionRow key checkMempool = store.permissionRow key checkMempool := by
  unfold permissionRow
  rw [committedRow_liveView hfork]
  rfl

theorem getPermission_liveView (key : PermKey) (checkMempool : Bool) :
    store.liveView.getPermission key checkMempool = store.getPermission key checkMempool := by
  unfold getPermission
  rw [permissionRow_liveView hfork]
  rfl

theorem permission_liveView (key : PermKey) :
    store.liveView.permission key = store.permission key := by
  unfold permission
  rw [getPermission_liveView hfork]

theorem canMine_liveView (entity : Hash256) (address : Hash160) :
    store.liveView.canMine params entity address = store.canMine params entity address := by
  unfold canMine
  simp only [getPermission_liveView hfork]
  rfl

theorem canAdmin_liveView (entity : Hash256) (address : Hash160) :
    store.liveView.canAdmin params entity address = store.canAdmin params entity address := by
  unfold canAdmin
  rw [permission_liveView hfork]
  rfl

theorem canActivate_liveView (entity : Hash256) (address : Hash160) :
    store.liveView.canActivate params entity address = store.canActivate params entity address := by
  unfold canActivate
  rw [permission_liveView hfork, canAdmin_liveView params hfork]

theorem mayGrant_liveView (entity : Hash256)
    (type : PermType) (admin : Hash160) : store.liveView.mayGrant params entity type admin =
      store.mayGrant params entity type admin := by
  unfold mayGrant
  rw [canAdmin_liveView params hfork, canActivate_liveView params hfork]

theorem isApproved_liveView (upgrade : BitVec 128) :
    store.liveView.isApproved upgrade = store.isApproved upgrade := by
  unfold isApproved
  rw [permissionRow_liveView hfork]

end

theorem verifyConsensusLoop_liveView (newRow lastRow : LedgerRow) :
    ∀ (fuel : ℕ) (row : LedgerRow) (tmpPool : List LedgerRow) (required : ℤ),
      store.liveView.verifyConsensusLoop newRow lastRow fuel row tmpPool required =
        store.verifyConsensusLoop newRow lastRow fuel row tmpPool required := by
  have hprevious : ∀ row, store.liveView.previousRow newRow row =
      store.previousRow newRow row := fun row => rfl
  intro fuel
  induction fuel with
  | zero => exact fun _ _ _ => rfl
  | succ fuel ih =>
    intro row tmpPool required
    unfold verifyConsensusLoop
    simp only [hprevious, ih]

theorem verifyConsensus_liveView (newRow lastRow : LedgerRow) :
    store.liveView.verifyConsensus params newRow lastRow =
      store.verifyConsensus params newRow lastRow := by
  unfold verifyConsensus
  simp only [verifyConsensusLoop_liveView]
  rfl

namespace SameView

variable (hview : SameView store other)

include hview

theorem symm : SameView other store :=
  Eq.symm hview

theorem trans {third : Store} (hnext : SameView other third) : SameView store third :=
  Eq.trans hview hnext

theorem read {α : Type*} (f : Store → α) : f other.liveView = f store.liveView :=
  (congrArg f hview).symm

section

variable (hfork : store.copiedRow = 0)

include hfork

theorem copiedRow : other.copiedRow = 0 :=
  (hview.read Store.copiedRow).trans hfork

theorem getPermission (key : PermKey) (checkMempool : Bool) :
    other.getPermission key checkMempool = store.getPermission key checkMempool := by
  rw [← getPermission_liveView hfork, ← getPermission_liveView (hview.copiedRow hfork)]
  exact hview.read fun view => view.getPermission key checkMempool

theorem permission (key : PermKey) :
    other.permission key = store.permission key :=
  congrArg Prod.fst (hview.getPermission hfork key true)

theorem permissionRow (key : PermKey) (checkMempool : Bool) :
    other.permissionRow key checkMempool = store.permissionRow key checkMempool :=
  congrArg Prod.snd (hview.getPermission hfork key checkMempool)

theorem canMine (entity : Hash256) (address : Hash160) :
    other.canMine params entity address = store.canMine params entity address := by
  rw [← canMine_liveView params hfork, ← canMine_liveView params (hview.copiedRow hfork)]
  exact hview.read fun view => view.canMine params entity address

theorem mayGrant (entity : Hash256) (type : PermType)
    (admin : Hash160) :
    other.mayGrant params entity type admin = store.mayGrant params entity type admin := by
  rw [← mayGrant_liveView params hfork, ← mayGrant_liveView params (hview.copiedRow hfork)]
  exact hview.read fun view => view.mayGrant params entity type admin

theorem isApproved (upgrade : BitVec 128) :
    other.isApproved upgrade = store.isApproved upgrade := by
  rw [← isApproved_liveView hfork, ← isApproved_liveView (hview.copiedRow hfork)]
  exact hview.read fun view => view.isApproved upgrade

end

theorem verifyConsensus (newRow lastRow : LedgerRow) : other.verifyConsensus params newRow lastRow =
      store.verifyConsensus params newRow lastRow := by
  rw [← verifyConsensus_liveView params newRow lastRow,
    ← store.verifyConsensus_liveView params newRow lastRow]
  exact hview.read fun view => view.verifyConsensus params newRow lastRow

end SameView

theorem saveClearedCounts_liveView :
    store.liveView.saveClearedCounts.liveView = store.saveClearedCounts.liveView := by
  have hcondition : (store.liveView.memPool = [] ∧ store.liveView.copiedRow = 0) ↔
      (store.memPool = [] ∧ store.copiedRow = 0) := Iff.rfl
  unfold saveClearedCounts
  by_cases hfirst : store.memPool = [] ∧ store.copiedRow = 0
  · rw [if_pos hfirst, if_pos (hcondition.mpr hfirst)]
    rfl
  rw [if_neg hfirst, if_neg (mt hcondition.mp hfirst)]
  rfl

theorem saveClearedCounts_copiedRow : store.saveClearedCounts.copiedRow = store.copiedRow := by
  unfold saveClearedCounts
  split <;> rfl

namespace SameView

variable (hview : SameView store other)

include hview

theorem adjustCounts (hfork : store.copiedRow = 0) (key : PermKey) (lastAllowed : PermType) :
    SameView (store.adjustCounts key lastAllowed) (other.adjustCounts key lastAllowed) := by
  unfold Store.adjustCounts
  rw [hview.permission hfork]
  generalize countDelta lastAllowed (store.permission key) = delta
  have hadmins := congrArg (fun view : Store =>
    { view with adminCount := view.adminCount + delta }) hview
  have hminers := congrArg (fun view : Store =>
    { view with minerCount := view.minerCount + delta }) hview
  split
  · exact hadmins
  split
  · exact hminers
  exact hview

theorem addMemPool (row : LedgerRow) : SameView (store.saveClearedCounts.addMemPool row)
      (other.saveClearedCounts.addMemPool row) := by
  have hsaved : SameView store.saveClearedCounts other.saveClearedCounts := by
    unfold SameView
    rw [← saveClearedCounts_liveView, ← @saveClearedCounts_liveView other]
    exact congrArg (fun view : Store => view.saveClearedCounts.liveView) hview
  exact congrArg (fun view : Store => view.addMemPool row) hsaved

theorem setType (hfork : store.copiedRow = 0) (grant : Grant) (type : PermType) :
    SameView (store.setType params grant type).1 (other.setType params grant type).1 ∧
      (other.setType params grant type).2 = (store.setType params grant type).2 := by
  have hgrantRow : ∀ lastRow, other.grantRow grant type lastRow =
      store.grantRow grant type lastRow := by
    intro lastRow
    exact hview.read fun view => view.grantRow grant type lastRow
  unfold Store.setType
  dsimp only
  rw [hview.getPermission hfork, hgrantRow, hview.verifyConsensus]
  split
  · exact ⟨hview, rfl⟩
  split
  · refine ⟨(hview.addMemPool _).adjustCounts ?_ _ _, rfl⟩
    exact saveClearedCounts_copiedRow.trans hfork
  exact ⟨hview, rfl⟩

end SameView

theorem setType_copiedRow (grant : Grant) (type : PermType) :
    (store.setType params grant type).1.copiedRow = store.copiedRow := by
  unfold setType
  dsimp only
  split
  · rfl
  split
  · obtain ⟨_, _, hframe⟩ := adjustCounts_frame (store.saveClearedCounts.addMemPool _) _ _
    rw [hframe]
    exact saveClearedCounts_copiedRow
  rfl

structure Simulates (related : Store → Store → Prop) : Prop where
  setType : ∀ {store other : Store}, related store other → ∀ (grant : Grant) {type : PermType},
    type ∈ permissionTypes params →
      related (store.setType params grant type).1 (other.setType params grant type).1 ∧
        (other.setType params grant type).2 = (store.setType params grant type).2
  mayGrant : ∀ {store other : Store}, related store other → ∀ entity type admin,
    other.mayGrant params entity type admin = store.mayGrant params entity type admin
  rooted : ∀ {store other : Store}, related store other →
    other.permission ⟨upgradeEntity, 0, MC_PTP_CONNECT⟩ =
      store.permission ⟨upgradeEntity, 0, MC_PTP_CONNECT⟩
  isApproved : ∀ {store other : Store}, related store other → ∀ upgrade,
    other.isApproved upgrade = store.isApproved upgrade

namespace Simulates

variable {params} {related : Store → Store → Prop} (hsim : Simulates params related)

include hsim

theorem setTypes (grant : Grant) {types : List PermType}
    (htypes : ∀ type ∈ types, type ∈ permissionTypes params) :
    ∀ {store other : Store}, related store other →
      related (setTypes params grant types store).1 (setTypes params grant types other).1 ∧
        (Store.setTypes params grant types other).2 =
          (Store.setTypes params grant types store).2 := by
  induction types with
  | nil => exact fun hrelated => ⟨hrelated, rfl⟩
  | cons type types ih =>
    intro store other hrelated
    obtain ⟨htype, hrest⟩ := List.forall_mem_cons.mp htypes
    obtain ⟨hnext, herr⟩ := hsim.setType hrelated grant htype
    unfold Store.setTypes
    rcases hset : store.setType params grant type with ⟨next, err⟩
    rcases hset' : other.setType params grant type with ⟨next', err'⟩
    rw [hset, hset'] at hnext herr
    obtain rfl : err' = err := herr
    cases err' with
    | none => exact ih hrest hnext
    | some err => exact ⟨hnext, rfl⟩

theorem setPermissionInternal (hrelated : related store other) (grant : Grant) :
    related (store.setPermissionInternal params grant).1
        (other.setPermissionInternal params grant).1 ∧
      (other.setPermissionInternal params grant).2 = (store.setPermissionInternal params grant).2 :=
  hsim.setTypes grant (fun _ hmem => (List.mem_filter.mp hmem).1) hrelated

theorem setPermission (hrelated : related store other) (grant : Grant) :
    related (store.setPermission params grant).1 (other.setPermission params grant).1 := by
  unfold Store.setPermission
  rw [hsim.mayGrant hrelated]
  split
  · exact hrelated
  exact (hsim.setPermissionInternal hrelated grant).1

theorem setApproval (hrelated : related store other) (approval : Approval) :
    related (store.setApproval params approval).1 (other.setApproval params approval).1 := by
  have hrooted : related
        (if store.permission ⟨upgradeEntity, 0, MC_PTP_CONNECT⟩ = 0 then
          store.setPermissionInternal params (upgradeRoot approval) else (store, none)).1
        (if other.permission ⟨upgradeEntity, 0, MC_PTP_CONNECT⟩ = 0 then
          other.setPermissionInternal params (upgradeRoot approval) else (other, none)).1 ∧
      (if other.permission ⟨upgradeEntity, 0, MC_PTP_CONNECT⟩ = 0 then
          other.setPermissionInternal params (upgradeRoot approval) else (other, none)).2 =
        (if store.permission ⟨upgradeEntity, 0, MC_PTP_CONNECT⟩ = 0 then
          store.setPermissionInternal params (upgradeRoot approval) else (store, none)).2 := by
    rw [hsim.rooted hrelated]
    split
    · exact hsim.setPermissionInternal hrelated (upgradeRoot approval)
    · exact ⟨hrelated, rfl⟩
  obtain ⟨hnext, herr⟩ := hrooted
  unfold Store.setApproval
  generalize (if store.permission ⟨upgradeEntity, 0, MC_PTP_CONNECT⟩ = 0 then
    store.setPermissionInternal params (upgradeRoot approval) else (store, none)) = first
    at hnext herr ⊢
  generalize (if other.permission ⟨upgradeEntity, 0, MC_PTP_CONNECT⟩ = 0 then
    other.setPermissionInternal params (upgradeRoot approval) else (other, none)) = second
    at hnext herr ⊢
  obtain ⟨next, err⟩ := first
  obtain ⟨next', err'⟩ := second
  obtain rfl : err' = err := herr
  cases err' with
  | some err => exact hnext
  | none =>
    dsimp only at hnext ⊢
    rw [hsim.isApproved hnext]
    split
    · exact (hsim.setPermissionInternal hnext (approvalGrant approval)).1
    exact hnext

theorem call (hrelated : related store other) (call : Call) :
    related (store.call params call) (other.call params call) := by
  cases call with
  | grant grant => exact hsim.setPermission hrelated grant
  | approve approval => exact hsim.setApproval hrelated approval

theorem callAll (calls : List Call) : ∀ {store other : Store}, related store other →
      related (store.callAll params calls) (other.callAll params calls) := by
  induction calls with
  | nil => exact fun hrelated => hrelated
  | cons call calls ih => exact fun hrelated => ih (hsim.call hrelated call)

end Simulates

theorem simulates_sameView :
    Simulates params fun store other => SameView store other ∧ store.copiedRow = 0 where
  setType := fun ⟨hview, hfork⟩ grant type _ =>
    have hset := hview.setType params hfork grant type
    ⟨⟨hset.1, (setType_copiedRow params grant type).trans hfork⟩, hset.2⟩
  mayGrant := fun ⟨hview, hfork⟩ => hview.mayGrant params hfork
  rooted := fun ⟨hview, hfork⟩ => hview.permission hfork _
  isApproved := fun ⟨hview, hfork⟩ => hview.isApproved hfork

namespace SameView

variable (hview : SameView store other)

include hview

theorem call (hfork : store.copiedRow = 0) (call : Call) :
    SameView (store.call params call) (other.call params call) :=
  ((simulates_sameView params).call ⟨hview, hfork⟩ call).1

theorem acceptStep (hfork : store.copiedRow = 0) (step : AcceptStep) :
    SameView (store.acceptStep params step) (other.acceptStep params step) := by
  cases step with
  | call call => exact hview.call params hfork call
  | checkPoint => exact congrArg Store.setCheckPoint hview
  | rollBack => exact congrArg Store.rollBackToCheckPoint hview

end SameView

theorem SameView.acceptSteps (hview : SameView store other) (hpoint : CheckPointed store)
    (steps : List AcceptStep) : SameView (steps.foldl (Store.acceptStep params) store)
      (steps.foldl (Store.acceptStep params) other) := by
  induction steps generalizing store other with
  | nil => exact hview
  | cons step steps ih =>
    exact ih (hview.acceptStep params hpoint.live.notForking step) (hpoint.acceptStep params step)

end Store

end Amberchain.Permission
