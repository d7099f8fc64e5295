import Amberchain.Permission.UpgradeList

/-!
# The first row of the upgrade entity

An approval is recorded only behind the row that makes the zero address a member of the
upgrade entity.
-/

namespace Amberchain.Permission

open RowChain

def Block.SparesUpgrades (block : Block) : Prop :=
  ∀ grant, Call.grant grant ∈ block.calls → grant.entity ≠ upgradeEntity

namespace Store

variable {params : ChainParams} {store : Store}

def HasRoot (store : Store) : Prop :=
  ∃ i, 0 < i ∧ i < store.row ∧ (store.logRow i).key = upgradeRootKey

def Rooted (store : Store) : Prop :=
  ∀ i, 0 < i → i < store.row → (store.logRow i).key.entity = upgradeEntity → store.HasRoot

theorem HasRoot.rooted (hroot : store.HasRoot) : store.Rooted :=
  fun _ _ _ _ => hroot

theorem HasRoot.newestRow_ne_zero (hroot : store.HasRoot) :
    newestRow store.logRow upgradeRootKey store.row ≠ 0 := by
  obtain ⟨i, hpos, hlt, hkey⟩ := hroot
  have hle : i ≤ newestRow store.logRow upgradeRootKey store.row :=
    @le_lastRow _ _ (keyAt store.logRow) _ _ _ hpos hlt hkey
  omega

section Append

variable {row : LedgerRow} {next : Store} (hlive : Live store)
  (happended : store.Appended row next)

include hlive happended

theorem HasRoot.append (hroot : store.HasRoot) : next.HasRoot := by
  have hext := happended.extends hlive.pool.toPoolChain (hlive.showsBelow happended.type_ne)
  obtain ⟨i, hpos, hlt, hkey⟩ := hroot
  refine ⟨i, hpos, ?_, ?_⟩
  · rw [hext.nextRow]
    omega
  rwa [hext.logRow_of_lt_row hlive.pool.toPoolChain hlt]

theorem hasRoot_of_append (hkey : row.key = upgradeRootKey) : next.HasRoot := by
  have hext := happended.extends hlive.pool.toPoolChain (hlive.showsBelow happended.type_ne)
  have hpos := hlive.pool.start_pos
  have hend := hlive.pool.start_add_length
  refine ⟨store.row, by omega, ?_, ?_⟩
  · rw [hext.nextRow]
    omega
  rw [hext.logRow_row hlive.pool.toPoolChain, hkey]

theorem Rooted.append (hrooted : store.Rooted) (hentity : row.key.entity ≠ upgradeEntity) :
    next.Rooted := by
  have hext := happended.extends hlive.pool.toPoolChain (hlive.showsBelow happended.type_ne)
  intro i hpos hlt hkey
  rw [hext.nextRow] at hlt
  by_cases hold : i < store.row
  · rw [hext.logRow_of_lt_row hlive.pool.toPoolChain hold] at hkey
    exact (hrooted i hpos hold hkey).append hlive happended
  obtain rfl : i = store.row := by omega
  rw [hext.logRow_row hlive.pool.toPoolChain] at hkey
  exact absurd hkey hentity

end Append

/-- Nothing is recorded when the mempool is not to be changed. -/
theorem setTypes_readOnly {grant : Grant} (hread : grant.updateMempool = false)
    (types : List PermType) (store : Store) : (setTypes params grant types store).1 = store := by
  have htype : ∀ type, (store.setType params grant type).1 = store := by
    intro type
    unfold setType
    dsimp only
    rw [hread]
    split <;> rfl
  induction types with
  | nil => rfl
  | cons type types ih =>
    have hsame := htype type
    unfold setTypes
    split
    · rename_i next hset
      rw [hset] at hsame
      obtain rfl : next = store := hsame
      exact ih
    rename_i next err hset
    rw [hset] at hsame
    exact hsame

/-- The first row is a single row. -/
theorem setPermissionInternal_root (approval : Approval) :
    store.setPermissionInternal params (upgradeRoot approval) =
      store.setType params (upgradeRoot approval) MC_PTP_CONNECT := by
  have htypes : (permissionTypes params).filter
      (fun type => type &&& (upgradeRoot approval).type ≠ 0) = [MC_PTP_CONNECT] := by
    show (permissionTypes params).filter (fun type => type &&& MC_PTP_CONNECT ≠ 0) = _
    unfold permissionTypes
    cases params.streams <;> cases params.upgrades <;> decide
  unfold setPermissionInternal
  rw [htypes]
  unfold setTypes
  rcases store.setType params (upgradeRoot approval) MC_PTP_CONNECT with ⟨-, _ | -⟩
  · rfl
  rfl

/-- After the first stage of an approval the first row is there, unless nothing changes. -/
theorem Live.root_recorded (hlive : Live store) (approval : Approval)
    (hok : (store.setPermissionInternal params (upgradeRoot approval)).2 = none)
    (hupdate : approval.updateMempool = true) :
    (store.setPermissionInternal params (upgradeRoot approval)).1.HasRoot := by
  rw [setPermissionInternal_root] at hok ⊢
  unfold setType at hok ⊢
  dsimp only at hok ⊢
  split at hok
  · cases hok
  rename_i row hverified
  obtain ⟨hkey, hadds⟩ := store.adds_of_verified params (upgradeRoot approval)
    (show isGrantType MC_PTP_CONNECT = true by decide) hverified
  rw [if_pos (show (upgradeRoot approval).updateMempool = true from hupdate)]
  exact hasRoot_of_append hlive hadds.appended hkey

theorem Live.setPermissionInternal_hasRoot (hlive : Live store) (hroot : store.HasRoot)
    (grant : Grant) : (store.setPermissionInternal params grant).1.HasRoot := by
  have hboth : Live (store.setPermissionInternal params grant).1 ∧
      (store.setPermissionInternal params grant).1.HasRoot := setPermissionInternal_adds params grant
    (motive := fun next => Live next ∧ next.HasRoot)
    (fun current row next hcurrent hadds _ =>
      ⟨hcurrent.1.append hadds.appended, hcurrent.2.append hcurrent.1 hadds.appended⟩)
    ⟨hlive, hroot⟩
  exact hboth.2

theorem Live.hasRoot_of_permission (hlive : Live store)
    (hpermission : store.permission upgradeRootKey ≠ 0) : store.HasRoot := by
  have htype : upgradeRootKey.type ≠ MC_PTP_BLOCK_INDEX := by decide
  have hfound := hlive.pool.rowAt htype (hlive.showsBelow htype)
  have hrange := (@permission_ne_zero store upgradeRootKey (by decide)).mp hpermission
  by_cases hnone : newestRow store.logRow upgradeRootKey store.row = 0
  · have hto := hfound.blockTo
    rw [newest, if_pos hnone] at hto
    simp [inRange, hto, LedgerRow.zero] at hrange
  exact ⟨_, Nat.pos_of_ne_zero hnone, lastRow_lt hnone, key_lastRow hnone⟩

theorem setApproval_stages (params : ChainParams) (store : Store) (approval : Approval) : ∃ first : Store × Option McError,
    (store.permission upgradeRootKey = 0 ∧
        first = store.setPermissionInternal params (upgradeRoot approval) ∨
      store.permission upgradeRootKey ≠ 0 ∧ first = (store, none)) ∧
    ((store.setApproval params approval).1 = first.1 ∨
      first.2 = none ∧ (store.setApproval params approval).1 =
        (first.1.setPermissionInternal params (approvalGrant approval)).1) := by
  have hstages : ∀ first : Store × Option McError, first =
      (if store.permission upgradeRootKey = 0 then
        store.setPermissionInternal params (upgradeRoot approval) else (store, none)) →
      (store.setApproval params approval).1 = first.1 ∨
        first.2 = none ∧ (store.setApproval params approval).1 =
          (first.1.setPermissionInternal params (approvalGrant approval)).1 := by
    intro first hfirst
    unfold setApproval
    rw [show (⟨upgradeEntity, 0, MC_PTP_CONNECT⟩ : PermKey) = upgradeRootKey from rfl, ← hfirst]
    obtain ⟨-, _ | -⟩ := first
    · dsimp only
      split
      · exact .inr ⟨rfl, rfl⟩
      · exact .inl rfl
    · exact .inl rfl
  by_cases hnone : store.permission upgradeRootKey = 0
  · exact ⟨_, .inl ⟨hnone, rfl⟩, hstages _ (if_pos hnone).symm⟩
  exact ⟨_, .inr ⟨hnone, rfl⟩, hstages _ (if_neg hnone).symm⟩

theorem Live.setApproval_rooted (hlive : Live store) (hrooted : store.Rooted)
    (approval : Approval) : (store.setApproval params approval).1.Rooted := by
  have hreadOnly : ¬ approval.updateMempool = true → ∀ (grant : Grant) (current : Store),
      grant.updateMempool = approval.updateMempool →
        (current.setPermissionInternal params grant).1 = current :=
    fun hread grant current hsame =>
      setTypes_readOnly (hsame.trans (Bool.eq_false_iff.mpr hread)) _ current
  obtain ⟨first, hfirst, hresult⟩ := setApproval_stages params store approval
  rcases hfirst with ⟨-, rfl⟩ | ⟨hpermission, rfl⟩
  · rcases hresult with hresult | ⟨hok, hresult⟩
    · rw [hresult, setPermissionInternal_root]
      rcases store.setType_adds params (upgradeRoot approval)
          (show isGrantType MC_PTP_CONNECT = true by decide) with hsame | ⟨row, hkey, hadds, -⟩
      · rwa [hsame]
      · exact (hasRoot_of_append hlive hadds.appended hkey).rooted
    rw [hresult]
    by_cases hupdate : approval.updateMempool = true
    · have hlive' : Live (store.setPermissionInternal params (upgradeRoot approval)).1 :=
        setPermissionInternal_adds params (upgradeRoot approval)
          (fun _ _ _ hcurrent hadds _ => hcurrent.append hadds.appended) hlive
      exact (hlive'.setPermissionInternal_hasRoot (hlive.root_recorded approval hok hupdate)
        (approvalGrant approval)).rooted
    rw [hreadOnly hupdate (approvalGrant approval) _ rfl,
      hreadOnly hupdate (upgradeRoot approval) _ rfl]
    exact hrooted
  have hroot := hlive.hasRoot_of_permission hpermission
  rcases hresult with hresult | ⟨-, hresult⟩
  · rwa [hresult]
  rw [hresult]
  exact (hlive.setPermissionInternal_hasRoot hroot (approvalGrant approval)).rooted

theorem Live.call_rooted (hlive : Live store) (hrooted : store.Rooted) {call : Call}
    (hspares : ∀ grant, call = .grant grant → grant.entity ≠ upgradeEntity) :
    (store.call params call).Rooted := by
  cases call with
  | grant grant =>
    have hboth : Live (store.setPermission params grant).1 ∧
        (store.setPermission params grant).1.Rooted := setPermission_adds params grant
      (motive := fun next => Live next ∧ next.Rooted)
      (fun current row next hcurrent hadds hkey =>
        ⟨hcurrent.1.append hadds.appended, hcurrent.2.append hcurrent.1 hadds.appended
          (by rw [hkey.entity]; exact hspares grant rfl)⟩)
      ⟨hlive, hrooted⟩
    exact hboth.2
  | approve approval => exact hlive.setApproval_rooted hrooted approval

theorem Live.callAll_rooted (calls : List Call) : ∀ {store : Store}, Live store → store.Rooted →
      (∀ grant, Call.grant grant ∈ calls → grant.entity ≠ upgradeEntity) →
      (store.callAll params calls).Rooted := by
  induction calls with
  | nil => exact fun _ hrooted _ => hrooted
  | cons call calls ih =>
    intro store hlive hrooted hspares
    exact ih (hlive.call params call)
      (hlive.call_rooted hrooted fun grant hcall => hspares grant (hcall ▸ (.head _)))
      fun grant hmem => hspares grant (.tail _ hmem)

/-- The rows that record a block are not about the upgrade entity. -/
theorem Live.commit_rooted (hlive : Live store) (hrooted : store.Rooted)
    (hbound : store.block + 1 < 2 ^ 31) (miner : Hash160) (hash : Hash256) :
    (store.commit params miner hash).Rooted := by
  have hrest := hlive.commit_atRest params miner hash hbound
  obtain ⟨-, hrow⟩ := hlive.commit_block params miner hash
  have hstart := (memPoolStart_of_empty hrest.memPool).trans hrow
  have hlog : ∀ i, i < store.row →
      (store.commit params miner hash).logRow i = store.logRow i := by
    intro i hlt
    rw [logRow_of_lt (by omega), hlive.commit_getRow params miner hash (.inl hlt), if_pos hlt]
  intro i hpos hlt hentity
  rw [hrow] at hlt
  by_cases hold : i < store.row
  · rw [hlog i hold] at hentity
    obtain ⟨j, hj, hjlt, hkey⟩ := hrooted i hpos hold hentity
    exact ⟨j, hj, by omega, by rw [hlog j hjlt, hkey]⟩
  rw [logRow_of_lt (by omega),
    hlive.commit_blockRow params miner hash (not_lt.mp hold) hlt] at hentity
  have hne : nullEntity ≠ upgradeEntity := by decide
  split at hentity
  · exact absurd hentity hne
  exact absurd hentity hne

theorem Live.addBlock_rooted (hlive : Live store) (hrooted : store.Rooted)
    (hbound : store.block + 1 < 2 ^ 31) {block : Block} (hspares : block.SparesUpgrades) :
    (store.addBlock params block).Rooted := by
  obtain ⟨hcalls, -, hblock, -⟩ := hlive.callAll params block.calls
  exact hcalls.commit_rooted (Live.callAll_rooted block.calls hlive hrooted hspares)
    (by rwa [hblock]) block.miner block.hash

theorem AlikeLogs.rooted {other : Store} (halike : AlikeLogs store other)
    (hrooted : store.Rooted) : other.Rooted := by
  intro i hpos hlt hentity
  rw [halike.row] at hlt
  rw [(halike.logRow hpos).key] at hentity
  obtain ⟨j, hj, hjlt, hkey⟩ := hrooted i hpos hlt hentity
  exact ⟨j, hj, by rwa [halike.row], by rw [(halike.logRow hj).key, hkey]⟩

end Store

end Amberchain.Permission
