import Amberchain.Entity.Supply
import Mathlib.Algebra.Order.BigOperators.Group.List

/-!
# Supply accounting over runs

The total that the database reports for an asset is its supply in the register,
and no supply reaches `2 ^ 63`, in every run whose steps are sound.
-/

namespace Amberchain.Entity

open LinkedLog

namespace Register

variable {register : Register} {issue : Accepted} {original : Hash256}

theorem supply_accept : (register.accept issue).supply original =
      register.supply original + if issue.original = original then issue.quantity.toNat else 0 := by
  have hissues : (register.accept issue).issues = register.issues ++ [issue] := by
    show register.confirmed ++ (register.pending ++ [issue]) = _
    rw [← List.append_assoc]
    rfl
  unfold supply
  rw [hissues]
  by_cases horiginal : issue.original = original
  · simp [horiginal]
  simp [horiginal]

theorem supply_confirm : register.confirm.supply original = register.supply original := by
  have hissues : register.confirm.issues.Perm register.issues := by
    show ((register.pending.reverse ++ register.confirmed) ++ []).Perm _
    rw [List.append_nil]
    exact (List.perm_append_comm).trans ((List.reverse_perm _).append_left _)
  exact ((hissues.filter _).map _).sum_nat

theorem supply_le_of_sublist {other : Register} (hissues : other.issues.Sublist register.issues) :
    other.supply original ≤ register.supply original :=
  ((hissues.filter _).map _).sum_le_sum fun _ _ => Nat.zero_le _

theorem supply_clear_le : register.clear.supply original ≤ register.supply original := by
  refine supply_le_of_sublist ?_
  show (register.confirmed ++ []).Sublist _
  rw [List.append_nil]
  exact List.sublist_append_left _ _

theorem supply_rollBack_le (block : ℤ) :
    (register.rollBack block).supply original ≤ register.supply original := by
  refine supply_le_of_sublist ?_
  show ((register.confirmed.filter _) ++ []).Sublist _
  rw [List.append_nil]
  exact List.filter_sublist.trans (List.sublist_append_left _ _)

/-- No supply reaches `2 ^ 63`. -/
def Bounded (register : Register) : Prop :=
  ∀ original, register.supply original < 2 ^ 63

theorem bounded_of_le {other : Register} (hbounded : register.Bounded)
    (hle : ∀ original, other.supply original ≤ register.supply original) : other.Bounded :=
  fun original => Nat.lt_of_le_of_lt (hle original) (hbounded original)

theorem Bounded.accept (hbounded : register.Bounded)
    (hfits : register.supply issue.original + issue.quantity.toNat < 2 ^ 63) :
    (register.accept issue).Bounded := by
  intro original
  rw [supply_accept]
  split
  · rename_i hsame
    rw [← hsame]
    exact hfits
  exact hbounded original

end Register

namespace AssetDB

/-- What the callers see to: totals are not negative, and `InsertEntity` is not for
assets. -/
def WellCalled : Op → Prop
  | .insertEntity _ entityType => entityType ≠ MC_ENT_TYPE_ASSET
  | .insertAsset _ quantity _ _ => quantity.msb = false
  | .insertAssetFollowOn _ quantity _ => quantity.msb = false
  | _ => True

def KeepsCount (params : ChainParams) (assets : AssetDB) (op : Op) : Prop :=
  Sound params (fun key => key.type.isTxid = true) assets op ∧ WellCalled op

/-- What a database owes the register: every entity is found, an asset has its
supply as total, and its chain leads to its first object. -/
def Accounted (assets : AssetDB) (register : Register) : Prop :=
  ∀ issue ∈ register.issues, issue.isGenesis = true →
    ∃ row, assets.findEntityByTxID issue.key.key = some row ∧ row.key = issue.key ∧
      (row.entityType = MC_ENT_TYPE_ASSET →
        (assets.getTotalQuantity row).toNat = register.supply issue.key.key ∧
        register.supply issue.key.key < 2 ^ 63 ∧
        (0 ≤ row.firstPos → LeadsTo assets.ledger row.firstPos row.chainPos))

variable {params : ChainParams} {tracked : EntityKey → Prop} {log : Log}
  {pending before after : List Pending} {assets : AssetDB} {register : Register}

def NamesOwnIndex (memPool : List EntityRow) : Prop :=
  ∀ before row after, memPool = before ++ row :: after → row.key.type = .txid →
    row.entityType = MC_ENT_TYPE_ASSET → row.firstPos = -(before.length + 1 : ℤ)

theorem namesOwnIndex_nil : NamesOwnIndex [] := by
  intro before row after heq
  exact absurd heq.symm (by simp)

/-- Only the first of some new rows can be an asset. -/
theorem NamesOwnIndex.append {memPool rows : List EntityRow} {first : EntityRow}
    (hmemPool : NamesOwnIndex memPool)
    (hfirst : first.key.type = .txid → first.entityType = MC_ENT_TYPE_ASSET →
      first.firstPos = -(memPool.length + 1))
    (hrows : ∀ row ∈ rows, row.key.type ≠ .txid) : NamesOwnIndex (memPool ++ first :: rows) := by
  intro before row after heq htype hasset
  rcases List.append_eq_append_iff.mp heq with ⟨between, hbefore, hsplit⟩ | ⟨between, hsplit, hrest⟩
  · cases between with
    | nil =>
      obtain ⟨rfl, _⟩ := List.cons_eq_cons.mp hsplit
      rw [hbefore, List.append_nil]
      exact hfirst htype hasset
    | cons other between =>
      obtain ⟨_, htail⟩ := List.cons_eq_cons.mp hsplit
      refine absurd htype (hrows row ?_)
      rw [htail]
      exact List.mem_append_right _ (.head _)
  cases between with
  | nil =>
    obtain ⟨rfl, _⟩ := List.cons_eq_cons.mp hrest
    rw [List.append_nil] at hsplit
    rw [← hsplit]
    exact hfirst htype hasset
  | cons other between =>
    obtain ⟨rfl, _⟩ := List.cons_eq_cons.mp hrest
    exact hmemPool before row between hsplit htype hasset

theorem keyRows_eq (params : ChainParams) (row : EntityRow) : keyRows params row =
      row :: ((row.ref.map refKey).toList ++ ((row.name params).map nameKey).toList
        ++ [shortTxidKey (shortTxid row.key.key)]).map fun key => { row with key := key } :=
  rfl

theorem NamesOwnIndex.insertKeys (hmemPool : NamesOwnIndex assets.memPool) {row : EntityRow}
    (hfirst : row.entityType = MC_ENT_TYPE_ASSET → row.firstPos = -(assets.memPool.length + 1)) :
    NamesOwnIndex (assets.memPool ++ keyRows params row) := by
  rw [keyRows_eq]
  refine hmemPool.append (fun _ => hfirst) fun keyRow hkeyRow htype => ?_
  obtain ⟨key, hkey, rfl⟩ := List.mem_map.mp hkeyRow
  have hother : key.type = .txid := htype
  simp only [List.mem_append, Option.mem_toList, Option.map_eq_some_iff, List.mem_singleton] at hkey
  rcases hkey with (⟨ref, _, rfl⟩ | ⟨name, _, rfl⟩) | rfl
  · cases hother
  · cases hother
  cases hother

/-- The asset that a sound follow-on finds has its supply as total. -/
theorem Indexed.total_eq (hassets : Indexed params tracked assets log pending)
    (hcovers : ∀ key : EntityKey, key.type.isTxid = true → tracked key)
    (hregister : Represents register log pending) {txid : Hash256} {row : EntityRow}
    (hfound : assets.getEntity (txidKey txid) = some row) (hown : assets.FollowsOwnAsset txid) :
    assets.getTotalQuantity row = BitVec.ofNat 64 (register.supply txid) := by
  rcases hassets.getEntity_cases (hcovers (txidKey txid) rfl) with
    ⟨start, hstart, hkey, hget⟩ | ⟨before, issue, after, hsplit, hkey, hget⟩ | ⟨hnone, _⟩
  · rw [hfound] at hget
    cases hget
    have hstartKey := (EntityRow.eq_of_isTxid hkey rfl).symm
    have htotal := hassets.total_confirmed hcovers hregister hstart (by rw [hstartKey]; rfl)
    rw [hstartKey] at htotal
    exact htotal
  · rw [hfound] at hget
    cases hget
    have hstartKey := (EntityRow.eq_of_isTxid hkey rfl).symm
    exact hassets.total_pending hcovers hregister hsplit hstartKey
      (hassets.firstPos_of_followsOwn hcovers hsplit hstartKey hown)
  rw [hfound] at hnone
  cases hnone

/-- The check of `InsertAssetFollowOn` keeps the supply below `2 ^ 63`. -/
theorem fits_of_checkFollowOn {row : EntityRow} {quantity : BitVec 64} {supply : ℕ}
    (hcheck : assets.checkFollowOn params row quantity = none)
    (htotal : assets.getTotalQuantity row = BitVec.ofNat 64 supply) (hsupply : supply < 2 ^ 63)
    (hquantity : quantity.msb = false) : supply + quantity.toNat < 2 ^ 63 := by
  have hmsb : (assets.getTotalQuantity row + quantity).msb = false := by
    unfold checkFollowOn at hcheck
    split at hcheck
    · cases hcheck
    split at hcheck
    · cases hcheck
    split at hcheck
    · cases hcheck
    split at hcheck
    · cases hcheck
    split at hcheck
    · cases hcheck
    rename_i hfits
    exact Bool.eq_false_iff.mpr hfits
  have hsmall := BitVec.toNat_lt_of_msb_false hquantity
  have hsum := BitVec.toNat_lt_of_msb_false hmsb
  rw [htotal, BitVec.toNat_add, BitVec.toNat_ofNat, Nat.mod_eq_of_lt (by omega),
    Nat.mod_eq_of_lt (by omega)] at hsum
  exact hsum

/-- A step that keeps count keeps all supplies below `2 ^ 63`. -/
theorem Indexed.bounded_after (hassets : Indexed params tracked assets log pending)
    (hcovers : ∀ key : EntityKey, key.type.isTxid = true → tracked key)
    (hregister : Represents register log pending) (hbounded : register.Bounded) (op : Op)
    (hsound : Sound params tracked assets op) (hcalled : WellCalled op) :
    (register.after params assets op).Bounded := by
  unfold Register.after
  cases op with
  | insertEntity issue entityType =>
    dsimp only
    split
    · refine hbounded.accept ?_
      exact hbounded issue.txid
    · exact hbounded
  | insertAsset issue quantity name multiple =>
    dsimp only
    split
    · rename_i haccepted
      refine hbounded.accept ?_
      show register.supply issue.txid + quantity.toNat < 2 ^ 63
      have hfree : assets.getEntity (txidKey issue.txid) = none := by
        rcases @insertKeys_cases params assets (assets.assetRow params issue quantity name multiple)
          issue.updateMempool with ⟨_, hquiet⟩ | ⟨_, _, hfree⟩
        · exact absurd (haccepted.2.symm.trans (hquiet haccepted.1)) (by simp)
        · exact hfree (assets.assetRow params issue quantity name multiple) (.head _)
      have hzero := hassets.supply_fresh hregister (hcovers (txidKey issue.txid) rfl) hfree
      rw [hzero, Nat.zero_add]
      exact BitVec.toNat_lt_of_msb_false hcalled
    · exact hbounded
  | insertAssetFollowOn issue quantity originalTxid =>
    dsimp only
    split
    · rename_i haccepted
      refine hbounded.accept ?_
      rcases @insertAssetFollowOn_cases params assets issue quantity originalTxid with
        ⟨_, hquiet⟩ | ⟨row, hfound, hcheck, _⟩
      · exact absurd (haccepted.2.symm.trans (hquiet haccepted.1)) (by simp)
      exact fits_of_checkFollowOn hcheck
        (hassets.total_eq hcovers hregister hfound hsound.2.1) (hbounded originalTxid) hcalled
    · exact hbounded
  | commit =>
    dsimp only
    split
    · exact Register.bounded_of_le hbounded fun _ => Nat.le_of_eq Register.supply_confirm
    · exact Register.bounded_of_le hbounded fun _ => Register.supply_clear_le
  | rollBack block =>
    exact Register.bounded_of_le hbounded fun _ => Register.supply_rollBack_le block
  | clearMemPool => exact Register.bounded_of_le hbounded fun _ => Register.supply_clear_le
  | restart => exact Register.bounded_of_le hbounded fun _ => Register.supply_clear_le

theorem Indexed.memPool_nil (hassets : Indexed params tracked assets log pending)
    (hregister : Represents register log pending) (hnone : register.pending = []) :
    assets.memPool = [] := by
  rw [hregister.pending, List.map_eq_nil_iff] at hnone
  rw [hassets.memPool, hnone]
  rfl

/-- Insertions keep the indices of pending assets, and the other operations leave
no pending ones. -/
theorem Indexed.namesOwnIndex_apply (hmemPool : NamesOwnIndex assets.memPool) (op : Op)
    (hnext : Indexed params tracked (assets.apply params op) log pending)
    (hregister : Represents (register.after params assets op) log pending)
    (hcalled : WellCalled op) : NamesOwnIndex (assets.apply params op).memPool := by
  have hempty : (register.after params assets op).pending = [] →
      NamesOwnIndex (assets.apply params op).memPool := by
    intro hnone
    rw [hnext.memPool_nil hregister hnone]
    exact namesOwnIndex_nil
  cases op with
  | insertEntity issue entityType =>
    show NamesOwnIndex (assets.insertEntity params issue entityType).1.memPool
    rcases @insertEntity_cases params assets issue entityType with
      ⟨hsame, _⟩ | ⟨hinsert, _⟩
    · rw [hsame]
      exact hmemPool
    rw [hinsert]
    exact hmemPool.insertKeys fun hasset => absurd hasset hcalled
  | insertAsset issue quantity name multiple =>
    show NamesOwnIndex (assets.insertKeys params _ issue.updateMempool).1.memPool
    rcases @insertKeys_cases params assets (assets.assetRow params issue quantity name multiple)
      issue.updateMempool with ⟨hsame, _⟩ | ⟨hinsert, _⟩
    · rw [hsame]
      exact hmemPool
    rw [hinsert]
    exact hmemPool.insertKeys fun _ => rfl
  | insertAssetFollowOn issue quantity originalTxid =>
    show NamesOwnIndex (assets.insertAssetFollowOn params issue quantity originalTxid).1.memPool
    rcases @insertAssetFollowOn_cases params assets issue quantity originalTxid with
      ⟨hsame, _⟩ | ⟨row, _, _, _, _, hinsert⟩
    · rw [hsame]
      exact hmemPool
    rw [hinsert]
    refine hmemPool.append (fun htype => ?_) fun _ hrow => absurd hrow List.not_mem_nil
    cases htype
  | commit =>
    refine hempty ?_
    unfold Register.after
    dsimp only
    split <;> rfl
  | rollBack block => exact hempty rfl
  | clearMemPool => exact hempty rfl
  | restart => exact hempty rfl

theorem SoundRun.counted (hrun : SoundRun params (KeepsCount params) assets register) :
    (∃ log pending, Indexed params (fun key => key.type.isTxid = true) assets log pending ∧
        Represents register log pending) ∧ register.Bounded ∧ NamesOwnIndex assets.memPool := by
  induction hrun with
  | start =>
    exact ⟨⟨[], [], indexed_start, rfl, rfl⟩, fun _ => (by decide : 0 < 2 ^ 63), namesOwnIndex_nil⟩
  | apply op _ hop ih =>
    obtain ⟨⟨log, pending, hassets, hregister⟩, hbounded, hmemPool⟩ := ih
    obtain ⟨log', pending', hnext, hafter⟩ := hassets.step (fun _ => id) hregister op hop.1
    exact ⟨⟨log', pending', hnext, hafter⟩,
      hassets.bounded_after (fun _ => id) hregister hbounded op hop.1 hop.2,
      hnext.namesOwnIndex_apply hmemPool op hafter hop.2⟩

theorem findEntityByTxID_of_getEntity {txid : Hash256} {row : EntityRow}
    (hfound : assets.getEntity (txidKey txid) = some row) :
    assets.findEntityByTxID txid = some row := by
  unfold findEntityByTxID
  rw [hfound]
  rfl

/-- In every run whose steps keep count, every recorded asset is found by its txid,
its total is what has been issued of it, that never reaches `2 ^ 63`, and the chain
of its confirmed issues leads to its genesis. -/
theorem supply_accounted (hrun : SoundRun params (KeepsCount params) assets register) :
    Accounted assets register := by
  obtain ⟨⟨log, pending, hassets, hregister⟩, hbounded, hmemPool⟩ := hrun.counted
  have hcovers : ∀ key : EntityKey, key.type.isTxid = true → key.type.isTxid = true := fun _ => id
  have htoNat : ∀ original,
      (BitVec.ofNat 64 (register.supply original)).toNat = register.supply original := by
    intro original
    have hfits := hbounded original
    rw [BitVec.toNat_ofNat, Nat.mod_eq_of_lt (by omega)]
  intro accepted haccepted hgenesis
  have htype : accepted.key.type = .txid := of_decide_eq_true hgenesis
  have hkey : txidKey accepted.key.key = accepted.key := by
    unfold txidKey
    rw [← htype]
  unfold Register.issues at haccepted
  rw [hregister.confirmed, hregister.pending] at haccepted
  rcases List.mem_append.mp haccepted with hlog | hpending
  · obtain ⟨start, hstart, rfl⟩ := List.mem_map.mp hlog
    have hstartType : start.row.key.type = .txid := htype
    have hfirst := hassets.ordered.firstPos_eq hstart hstartType
    have hfound := hassets.getEntity_log hstart (by rw [hstartType]; rfl) start.row.key_mem_keys
    refine ⟨{ start.row with chainPos := head (ledgerView params) log start.pos },
      findEntityByTxID_of_getEntity (by rw [hkey]; exact hfound), rfl,
      fun _ => ⟨?_, hbounded _, ?_⟩⟩
    · rw [hassets.total_confirmed hcovers hregister hstart hstartType, htoNat]
      rfl
    intro _
    rw [hfirst]
    exact hassets.ordered.leadsTo hassets.backed.chained hstart hstartType
  obtain ⟨issue, hissue, rfl⟩ := List.mem_map.mp hpending
  obtain ⟨before, after, hsplit⟩ := List.append_of_mem hissue
  have hissueType : issue.row.key.type = .txid := htype
  have hfound := hassets.getEntity_pending hsplit (by rw [hissueType]; rfl)
    issue.row.key_mem_keys
  refine ⟨_, findEntityByTxID_of_getEntity (by rw [hkey]; exact hfound), rfl, fun hasset => ?_⟩
  have hfirst : issue.row.firstPos = -((poolRows params before).length + 1) := by
    obtain ⟨others, hrows, _⟩ := issue.rows_eq params
    have hplace : assets.memPool = poolRows params before ++
        issue.row :: (others.map (fun key => { issue.row with key := key }) ++
          poolRows params after) := by
      rw [hassets.memPool, hsplit, poolRows_append, poolRows_cons, hrows, List.cons_append]
    exact hmemPool _ _ _ hplace hissueType hasset
  refine ⟨?_, hbounded _, fun hpos => ?_⟩
  · rw [hassets.total_pending hcovers hregister hsplit hkey.symm hfirst, htoNat]
  omega

instance (params : ChainParams) (script : Bytes) : Decidable (DetailsFit params script) :=
  inferInstanceAs (Decidable (_ ∧ ∀ name ∈ scriptName params script, _))

instance (assets : AssetDB) (originalTxid : Hash256) :
    Decidable (assets.FollowsOwnAsset originalTxid) :=
  inferInstanceAs (Decidable (∀ original ∈ assets.getEntity (txidKey originalTxid), _ → _))

theorem carriesOwnKeys_txid (issue : Issue) (originalTxid : Hash256) :
    CarriesOwnKeys params (fun key => key.type.isTxid = true) assets issue originalTxid := by
  intro key hkey htracked
  unfold EntityRow.otherKeys at hkey
  simp only [List.mem_cons, List.mem_append, Option.mem_toList, Option.map_eq_some_iff] at hkey
  rcases hkey with (rfl | ⟨ref, _, rfl⟩) | ⟨name, _, rfl⟩
  · cases htracked
  · cases htracked
  cases htracked

/-- A database and its register after some operations. -/
def runOps (params : ChainParams) (ops : List Op) : AssetDB × Register :=
  ops.foldl (fun state op => (state.1.apply params op, state.2.after params state.1 op))
    ((initializeFrom .empty .empty).1, .empty)

def followable : Bytes :=
  Details.specialParam Details.MC_ENT_SPRM_FOLLOW_ONS [1]

def stock : Hash256 := 5 <<< 128

def feed : Hash256 := 6 <<< 128

def issueOf (txid : Hash256) (offset : ℤ) (script : Bytes) : Issue where
  txid := txid
  offset := offset
  script := script
  specialScript := []
  updateMempool := true

def issueStock : Op :=
  .insertAsset (issueOf stock 1 followable) 100 [] 1

def moreStock : Op :=
  .insertAssetFollowOn (issueOf (7 <<< 128) 2 []) 30 stock

theorem stock_accounted : Accounted (runOps .defaults [issueStock, moreStock, .commit]).1
      (runOps .defaults [issueStock, moreStock, .commit]).2 := by
  have hissue : KeepsCount .defaults (runOps .defaults []).1 issueStock :=
    ⟨by unfold issueStock Sound; decide +kernel, rfl⟩
  have hmore : KeepsCount .defaults (runOps .defaults [issueStock]).1 moreStock :=
    ⟨⟨by decide +kernel, by decide +kernel, carriesOwnKeys_txid _ _⟩, rfl⟩
  have hcommit : KeepsCount .defaults (runOps .defaults [issueStock, moreStock]).1 .commit :=
    ⟨.inl (by unfold CanBeWritten; decide +kernel), trivial⟩
  have hfirst := @SoundRun.apply .defaults (KeepsCount .defaults) _ _ issueStock .start hissue
  have hsecond := SoundRun.apply moreStock hfirst hmore
  exact supply_accounted (.apply .commit hsecond hcommit)

/-- An asset is the first issue of the mempool.  A stream comes behind it, and a
follow-on of the stream. -/
def pendingStock : Op :=
  .insertAsset (issueOf stock (-1) []) 100 [] 1

def pendingFeed : Op :=
  .insertEntity (issueOf feed (-1) followable) MC_ENT_TYPE_STREAM

def moreFeed : Op :=
  .insertAssetFollowOn (issueOf (7 <<< 128) (-1) []) 30 feed

def mixedOps : List Op :=
  [pendingStock, pendingFeed, moreFeed]

/-- The row of a pending stream says `-1` for its place, which is the place of the
asset, so that the stream's follow-on counts for the asset. -/
theorem stream_counts_for_asset :
    ¬ ∀ (params : ChainParams) (assets : AssetDB) (register : Register),
      SoundRun params (fun _ op => WellCalled op) assets register → Accounted assets register := by
  intro haccounted
  have hrun : SoundRun .defaults (fun _ op => WellCalled op) (runOps .defaults mixedOps).1
      (runOps .defaults mixedOps).2 := by
    have hstream : WellCalled pendingFeed := by
      show MC_ENT_TYPE_STREAM ≠ MC_ENT_TYPE_ASSET
      decide
    have hfirst := @SoundRun.apply .defaults (fun _ op => WellCalled op) _ _ pendingStock .start rfl
    exact .apply moreFeed (.apply pendingFeed hfirst hstream) rfl
  have hpending : (runOps .defaults mixedOps).2.issues.head?.map Accepted.key =
      some (txidKey stock) := by
    decide +kernel
  obtain ⟨issue, hissue, hkey⟩ := Option.map_eq_some_iff.mp hpending
  have hgenesis : issue.isGenesis = true := by
    unfold Accepted.isGenesis
    rw [hkey]
    rfl
  obtain ⟨row, hfound, _, hasset⟩ := haccounted _ _ _ hrun issue (List.mem_of_head? hissue) hgenesis
  rw [hkey] at hfound hasset
  have htotal : ((runOps .defaults mixedOps).1.findEntityByTxID (txidKey stock).key).map
      (fun row => (row.entityType, ((runOps .defaults mixedOps).1.getTotalQuantity row).toNat)) =
      some (MC_ENT_TYPE_ASSET, 130) := by
    decide +kernel
  rw [hfound, Option.map_some, Option.some.injEq, Prod.mk.injEq] at htotal
  have hexact := (hasset htotal.1).1
  rw [htotal.2] at hexact
  cases hexact

end AssetDB

end Amberchain.Entity
