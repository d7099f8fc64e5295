import Amberchain.Transaction.Eligible
import Amberchain.Transaction.NewEntity

/-!
# Entity operations and permissions

An accepted transaction writes to streams, issues assets and creates streams and upgrades
by inputs that have the permissions for it, as they are once its own grants are applied.
-/

namespace Amberchain.Transaction

open Entity Permission Failing
open Permission.Store (RowsAdded)

structure ItemAt (params : ChainParams) (assets : AssetDB) (tx : Tx) (j : ℕ)
    (stream : EntityRow) : Prop where
  output : ∃ output shortTxid, tx.vout[j]? = some output
    ∧ (McScript.setScript params output.scriptPubKey).isOpReturn = true
    ∧ (McScript.setScript params output.scriptPubKey).numElements = 3
    ∧ ((McScript.setScript params output.scriptPubKey).setElement 0).getEntity = .ok shortTxid
    ∧ assets.findEntityByShortTxID shortTxid = some stream
  type : stream.entityType ≠ MC_ENT_TYPE_ASSET ∧ stream.entityType ≠ MC_ENT_TYPE_UPGRADE
  closed : stream.anyoneCanWrite = 0

def HasIssuer (params : ChainParams) (inputs : Inputs) (store : Store) (entity : Hash256) : Prop :=
  ∃ i, inputs.hashType i = .all ∧ inputs.destination i ≠ 0
    ∧ store.canIssue params entity (inputs.destination i) ≠ 0

/-- The entity operations of a transaction are signed by inputs that have the permissions
for them. -/
structure Authorised (params : ChainParams) (assets : AssetDB) (tx : Tx) (inputs : Inputs)
    (store : Store) : Prop where
  signed : ∀ j stream, ItemAt params assets tx j stream → ∃ i, i ∈ inputs.signers j
  writers : ∀ j stream, ItemAt params assets tx j stream → ∀ i ∈ inputs.signers j,
    store.canWrite params stream.key.key (inputs.destination i) ≠ 0
  newAsset : ∀ output ∈ tx.vout, NewAssetIn params output →
    HasIssuer params inputs store nullEntity
  followOn : ∀ output ∈ tx.vout, ∀ ref, FollowOnIn params output ref →
    ∃ entity, assets.findEntityByFullRef ref = some entity
      ∧ HasIssuer params inputs store entity.key.key
  update : ∀ output ∈ tx.vout, ∀ asset, UpdateIn params output asset →
    ∃ entity : EntityRow, shortTxid entity.key.key = asset
      ∧ HasIssuer params inputs store entity.key.key
  creators : ∀ j entity, NewEntityAt params tx j entity → ∃ i ∈ inputs.signers j,
    store.canCreate params nullEntity (inputs.destination i) ≠ 0
      ∧ (entity.type = MC_ENT_TYPE_UPGRADE →
        store.canAdmin params nullEntity (inputs.destination i) ≠ 0)

structure SameChecks (granted store : Store) : Prop where
  permission : ∀ key, key.type = MC_PTP_WRITE ∨ key.type = MC_PTP_ISSUE ∨ key.type = MC_PTP_CREATE
      ∨ key.type = MC_PTP_ADMIN → store.permission key = granted.permission key
  block : store.block = granted.block
  adminCount : store.adminCount = granted.adminCount

namespace SameChecks

variable {granted store : Store} (hsame : SameChecks granted store) (params : ChainParams)
  (entity : Hash256) (address : Hash160)

include hsame

theorem canWrite_eq : store.canWrite params entity address = granted.canWrite params entity address := by
  unfold Store.canWrite
  rw [hsame.permission _ (.inl rfl)]

theorem canIssue_eq : store.canIssue params entity address = granted.canIssue params entity address := by
  unfold Store.canIssue
  rw [hsame.permission _ (.inr (.inl rfl))]

theorem canCreate_eq :
    store.canCreate params entity address = granted.canCreate params entity address := by
  unfold Store.canCreate
  rw [hsame.permission _ (.inr (.inr (.inl rfl)))]

theorem canAdmin_eq : store.canAdmin params entity address = granted.canAdmin params entity address := by
  unfold Store.canAdmin
  rw [hsame.permission _ (.inr (.inr (.inr rfl))), hsame.block, hsame.adminCount]

end SameChecks

/-- The state in the last pass: only approvals are added. -/
structure Checking (assets : AssetDB) (granted : Store) (state : TxState) : Prop where
  assets_eq : state.assets = assets
  live : state.permissions.Live
  checks : SameChecks granted state.permissions

variable {env : TxEnv} {tx : Tx} {inputs : Inputs} {offset : ℤ} {seedNode : Option Hash160}
  {assets : AssetDB} {granted : Store} {state : TxState}

theorem Checking.of_same {next : TxState} (hsame : SamePermissions state next)
    (hchecking : Checking assets granted state) : Checking assets granted next := by
  obtain ⟨hassets, hlive, hchecks⟩ := hchecking
  refine ⟨hsame.assets.trans hassets, ?_, ?_⟩
  · rwa [hsame.permissions]
  rwa [hsame.permissions]

theorem setApproval_checks {store : Store} {approval : Store.Approval}
    (hstore : store.Live ∧ SameChecks granted store) :
    (store.setApproval env.params approval).1.Live
      ∧ SameChecks granted (store.setApproval env.params approval).1 := by
  refine @Store.setApproval_grants env.params store approval
    (fun store => store.Live ∧ SameChecks granted store) ?_ hstore
  intro grant store row next hcurrent hgrants htype
  obtain ⟨hlive, hchecks⟩ := hcurrent
  have hother (type : PermType) (hneeded : type = MC_PTP_WRITE ∨ type = MC_PTP_ISSUE
      ∨ type = MC_PTP_CREATE ∨ type = MC_PTP_ADMIN) : row.key.type ≠ type
        ∧ type ≠ MC_PTP_BLOCK_INDEX := by
    rcases htype with htype | htype <;> rw [htype] <;>
      rcases hneeded with rfl | rfl | rfl | rfl <;> decide
  refine ⟨hlive.append hgrants.appended, fun key hneeded => ?_, ?_, ?_⟩
  · rw [hgrants.appended.permission_eq hlive
      (fun hkey => (hother key.type hneeded).1 (by rw [hkey])) (hother key.type hneeded).2]
    exact hchecks.permission key hneeded
  · exact hgrants.appended.block_eq.trans hchecks.block
  exact (hgrants.adminCount (hother _ (.inr (.inr (.inr rfl)))).1).trans hchecks.adminCount

theorem approveBy_checking (entity : EntityRow) (approval timestamp : ℕ) (admins : List ℕ) :
    Keeps (Checking assets granted)
      (changeForInputs (approveBy env inputs offset entity approval timestamp) admins) := by
  intro state hstate
  have happroved := @anyInput_keeps (fun store => store.Live ∧ SameChecks granted store)
    (approveBy env inputs offset entity approval timestamp) admins
    (fun _ _ _ hstore => setApproval_checks hstore) state.permissions ⟨hstate.live, hstate.checks⟩
  exact ⟨hstate.assets_eq, happroved.1, happroved.2⟩

theorem checkSecondElement_checking (entity : EntityRow) (script : McScript) (j : ℕ) :
    Keeps (Checking assets granted) (checkSecondElement env inputs offset entity script j) := by
  have hkey : Keeps (Checking assets granted) (checkItemKey script) := by
    unfold checkItemKey
    split
    · exact Keeps.throw _
    · exact Keeps.pure ()
  unfold checkSecondElement
  split
  · split
    · unfold checkAssetUpdate
      split
      · exact Keeps.throw _
      exact Keeps.bind (keeps_change (fun _ _ hsame hstate => hstate.of_same hsame)
        fun _ => ⟨rfl, rfl, rfl, rfl⟩) fun _ =>
          Keeps.bind keeps_rejectIf fun _ => keeps_rejectIf
    split
    · exact hkey
    unfold approveUpgrade
    split
    · exact Keeps.throw _
    exact Keeps.bind Keeps.get fun _ => Keeps.bind (approveBy_checking _ _ _ _) fun _ =>
      keeps_rejectIf
  split
  · exact Keeps.throw _
  exact hkey

theorem passType_last (params : ChainParams) (type : PermType) : passType params 3 type = 0 :=
  rfl

theorem lastPass_checking :
    PassInvariant env tx inputs offset seedNode assets 3 (Checking assets granted)
      (Checking assets granted) where
  mayFail := fun _ hstate => hstate
  assets_eq := fun _ hstate => hstate.assets_eq
  same := fun _ _ hsame hstate => hstate.of_same hsame.toSamePermissions
  element := by
    intro j output e element _ _ _
    refine Keeps.bind keeps_rejectIf fun _ => ?_
    refine Keeps.bind (keeps_onlyIf fun hpass => absurd (of_decide_eq_true hpass).1 (by decide))
      fun _ => ?_
    refine Keeps.bind (keeps_onlyIf fun hpass => absurd (of_decide_eq_true hpass).1 (by decide))
      fun _ => ?_
    exact keeps_onlyIf fun htype => absurd (passType_last _ _) (of_decide_eq_true htype)
  metadata := by
    intro j output _ _
    refine Keeps.bind (keeps_onlyIf fun hpass => absurd (of_decide_eq_true hpass) (by decide))
      fun _ => keeps_onlyIf fun _ => ?_
    unfold checkEntityMetadata
    split
    · exact Keeps.throw _
    refine Keeps.bind Keeps.get fun _ => ?_
    split
    · exact Keeps.throw _
    exact Keeps.bind (checkSecondElement_checking _ _ _) fun _ =>
      Keeps.bind Keeps.get fun _ => keeps_rejectIf

/-- The signers of an item may write to its stream. -/
theorem lastPass_writers (hfixed : env.params.fixedIn10007 = true) {final : TxState}
    (hstate : Checking assets granted state)
    (hrun : runPass env tx inputs offset seedNode 3 state = .ok () final) {j : ℕ}
    {stream : EntityRow} (hitem : ItemAt env.params assets tx j stream) : ∀ i ∈ inputs.signers j,
      granted.canWrite env.params stream.key.key (inputs.destination i) ≠ 0 := by
  obtain ⟨output, shortTxid, houtput, hreturn, hthree, hentity, hfind⟩ := hitem.output
  obtain ⟨before, after, hbefore, hprocess⟩ :=
    (@lastPass_checking env tx inputs offset seedNode assets granted).runPass_output hstate hrun
      houtput
  unfold processOutput at hprocess
  rw [if_pos hreturn] at hprocess
  obtain ⟨⟨⟩, middle, hfirst, hlast⟩ := Failing.bind_eq_ok.mp hprocess
  obtain ⟨hfalse, -⟩ | ⟨-, rfl⟩ := onlyIf_eq_ok.mp hfirst
  · exact absurd (of_decide_eq_true hfalse) (by decide)
  obtain ⟨-, hlast⟩ | ⟨hfalse, -⟩ := onlyIf_eq_ok.mp hlast
  · unfold checkEntityMetadata at hlast
    rw [hentity] at hlast
    obtain ⟨state', next, hget, hlast⟩ := Failing.bind_eq_ok.mp hlast
    cases hget
    rw [hbefore.assets_eq, hfind] at hlast
    obtain ⟨⟨⟩, checked, hsecond, hlast⟩ := Failing.bind_eq_ok.mp hlast
    have hchecked := @checkSecondElement_checking env inputs offset assets granted stream
      (McScript.setScript env.params output.scriptPubKey) j middle hbefore
    rw [hsecond] at hchecked
    obtain ⟨state', next, hget, hlast⟩ := Failing.bind_eq_ok.mp hlast
    cases hget
    obtain ⟨hvalid, -⟩ := rejectIf_eq_ok.mp hlast
    have hwriters : validPublishers env inputs stream checked.permissions j = true := by
      by_contra hnot
      exact absurd ⟨hitem.type.1, hitem.type.2, hnot⟩ (of_decide_eq_false hvalid)
    unfold validPublishers at hwriters
    rw [if_neg (not_not.mpr hitem.closed), if_pos hfixed] at hwriters
    intro i hi
    have hwrite := of_decide_eq_true (List.all_eq_true.mp hwriters i hi)
    rwa [hchecked.checks.canWrite_eq] at hwrite
  exact absurd ⟨rfl, hthree⟩ (of_decide_eq_false hfalse)

theorem coinBaseInput_inputs {store : Store} (hblock : store.block ≠ -1)
    (hcoinbase : tx.isCoinBase = true) (hscan : scanInputs env assets store tx = .ok inputs) :
    inputs.inputs = [⟨.nonstandard, 0, .all⟩] := by
  unfold scanInputs at hscan
  rw [if_pos hcoinbase] at hscan
  cases hscan
  unfold coinBaseInput
  dsimp only
  rw [if_neg (by simpa using hblock)]
  rfl

theorem not_hasIssuer_of_coinbase {store checked : Store} (hblock : store.block ≠ -1)
    (hcoinbase : tx.isCoinBase = true) (hscan : scanInputs env assets store tx = .ok inputs)
    (entity : Hash256) : ¬ HasIssuer env.params inputs checked entity := by
  rintro ⟨i, -, haddress, -⟩
  refine haddress ?_
  unfold Inputs.destination
  rw [coinBaseInput_inputs hblock hcoinbase hscan]
  cases i <;> rfl

/-- Some input signs an output with metadata. -/
theorem exists_signer {store : Store} (hblock : store.block ≠ -1)
    (hscan : scanInputs env assets store tx = .ok inputs) {j : ℕ}
    (hsigned : inputs.scriptHashAllFound = true ∨ env.params.fixedIn10007 = true
      ∧ j < inputs.inputs.length ∧ inputs.hashType j = .single) : ∃ i, i ∈ inputs.signers j := by
  have hmem {i : ℕ} (hi : i < inputs.inputs.length) (hsigns : inputs.signs i j = true) :
      i ∈ inputs.signers j := List.mem_filter.mpr ⟨List.mem_range.mpr hi, hsigns⟩
  rcases hsigned with hall | ⟨-, hlt, hsingle⟩
  · cases hcoinbase : tx.isCoinBase with
    | true =>
      have hinputs := coinBaseInput_inputs hblock hcoinbase hscan
      refine ⟨0, hmem (by rw [hinputs]; exact Nat.one_pos) (decide_eq_true (.inl ?_))⟩
      unfold Inputs.hashType
      rw [hinputs]
      rfl
    | false =>
      have hspending := scanInputs_spending hcoinbase hscan
      obtain ⟨i, hi, htype⟩ := hspending.all hall
      exact ⟨i, hmem (hspending.length ▸ hi) (decide_eq_true (.inl htype))⟩
  exact ⟨j, hmem hlt (decide_eq_true (.inr ⟨hsingle, rfl⟩))⟩

theorem hasIssuer_of_issuersOf {store : Store} {entity : Hash256}
    (hissuers : issuersOf env inputs store entity ≠ []) :
    HasIssuer env.params inputs store entity := by
  obtain ⟨i, hi⟩ := List.exists_mem_of_ne_nil _ (fun hnil => hissuers (List.map_eq_nil_iff.mpr hnil))
  exact ⟨i, of_decide_eq_true (List.mem_filter.mp hi).2⟩

theorem HasIssuer.of_checks {store : Store} {entity : Hash256} (hsame : SameChecks granted store)
    (hissuer : HasIssuer env.params inputs store entity) :
    HasIssuer env.params inputs granted entity := by
  obtain ⟨i, htype, haddress, hissue⟩ := hissuer
  rw [hsame.canIssue_eq] at hissue
  exact ⟨i, htype, haddress, hissue⟩

variable {final : TxState}

theorem acceptAssetGenesis_plan {accept : Bool}
    (hrun : acceptAssetGenesis env tx inputs offset accept state = .ok () final) :
    ∃ planned, planIssue env tx inputs state.newEntityOutput.isSome state.permissions state.assets
        = .ok planned ∧ (planned = none → final = state)
      ∧ ∀ plan, planned = some plan → plan.issuers ≠ [] := by
  obtain ⟨state', next, hget, hrun⟩ := Failing.bind_eq_ok.mp hrun
  cases hget
  cases hplan : planIssue env tx inputs state.newEntityOutput.isSome state.permissions
      state.assets with
  | error reason =>
    rw [hplan] at hrun
    cases hrun
  | ok planned =>
    rw [hplan] at hrun
    refine ⟨planned, rfl, ?_, ?_⟩
    · rintro rfl
      cases hrun
      rfl
    rintro plan rfl hnil
    obtain ⟨⟨⟩, marked, -, hrun⟩ := Failing.bind_eq_ok.mp hrun
    obtain ⟨⟨⟩, checked, hreject, -⟩ := Failing.bind_eq_ok.mp hrun
    have hsome := (rejectIf_eq_ok.mp hreject).1
    rw [hnil] at hsome
    cases hsome

theorem planIssue_of_newEntity {store : Store} {planned : Option IssuePlan}
    (hplan : planIssue env tx inputs true store assets = .ok planned) : planned = none := by
  unfold planIssue at hplan
  split at hplan
  · cases hplan
    rfl
  obtain ⟨scan, -, hplan⟩ := Folding.bind_eq_ok.mp hplan
  dsimp only at hplan
  split at hplan
  · cases hplan
  split at hplan
  · cases hplan
  split at hplan
  · obtain ⟨target, -, hplan⟩ := Folding.bind_eq_ok.mp hplan
    split at hplan
    · cases hplan
      rfl
    · cases hplan
  split at hplan
  · cases hplan
    rfl
  cases hplan

theorem acceptNewEntity_opener {accept : Bool} {output : ℕ}
    (hrun : acceptNewEntity env tx inputs offset accept output state = .ok () final) :
    ∃ i ∈ inputs.signers output,
      state.permissions.canCreate env.params nullEntity (inputs.destination i) ≠ 0
        ∧ (state.newEntityType = MC_ENT_TYPE_UPGRADE →
          state.permissions.canAdmin env.params nullEntity (inputs.destination i) ≠ 0) := by
  obtain ⟨⟨⟩, marked, hmark, hrun⟩ := Failing.bind_eq_ok.mp hrun
  cases hmark
  obtain ⟨state', next, hget, hrun⟩ := Failing.bind_eq_ok.mp hrun
  cases hget
  obtain ⟨⟨⟩, checked, hreject, -⟩ := Failing.bind_eq_ok.mp hrun
  have hopeners := (rejectIf_eq_ok.mp hreject).1
  rw [List.isEmpty_eq_false_iff] at hopeners
  obtain ⟨i, hi⟩ := List.exists_mem_of_ne_nil _ (fun hnil => hopeners (List.map_eq_nil_iff.mpr hnil))
  obtain ⟨hsigner, hmay⟩ := List.mem_filter.mp hi
  obtain ⟨hcreate, hadmin⟩ := of_decide_eq_true hmay
  exact ⟨i, hsigner, hcreate, fun hupgrade => hadmin.resolve_left (not_not.mpr hupgrade)⟩

structure AcceptedRun (env : TxEnv) (tx : Tx) (inputs : Inputs) (offset : ℤ) (chain : Chain)
    (accept : Bool) (granted checked issued : TxState) : Prop where
  grants : permissionPasses env tx inputs offset chain.seedNode (checkPointed inputs chain)
    = .ok () granted
  last : runPass env tx inputs offset chain.seedNode 3 granted = .ok () checked
  created : Created env.params tx chain.assets tx.vout.length checked
  issue : acceptAssetGenesis env tx inputs offset accept checked = .ok () issued
  newEntity : ∀ output, issued.newEntityOutput = some output →
    ∃ final, acceptNewEntity env tx inputs offset accept output issued = .ok () final

theorem compareAssets_eq_ok (hrun : compareAssets env inputs state = .ok () final) :
    final = state := by
  obtain ⟨state', next, hget, hrun⟩ := Failing.bind_eq_ok.mp hrun
  cases hget
  cases hcompare : compareAssetQuantities env.params state.assets inputs.amounts state.amountsOut with
  | error reason =>
    rw [hcompare] at hrun
    cases hrun
  | ok value =>
    rw [hcompare] at hrun
    cases hrun
    rfl

theorem acceptedRun {chain : Chain} {accept : Bool} (hdrop : env.params.opDropDetailsScripts = true)
    (hrun : processTransaction env tx inputs offset chain.seedNode accept
      (checkPointed inputs chain) = .ok () final) : ∃ granted checked issued,
      AcceptedRun env tx inputs offset chain accept granted checked issued := by
  obtain ⟨⟨⟩, compared, houtputs, hentities⟩ := Failing.bind_eq_ok.mp hrun
  have hcreated := @processOutputs_created env tx inputs offset chain.seedNode chain.assets hdrop
    (checkPointed inputs chain) ⟨rfl, fun j hlt => absurd hlt (Nat.not_lt_zero j)⟩
  rw [houtputs] at hcreated
  rw [processOutputs_eq] at houtputs
  obtain ⟨⟨⟩, granted, hgrants, houtputs⟩ := Failing.bind_eq_ok.mp houtputs
  obtain ⟨⟨⟩, checked, hlast, hcompare⟩ := Failing.bind_eq_ok.mp houtputs
  obtain rfl := compareAssets_eq_ok hcompare
  obtain ⟨⟨⟩, issued, hissue, hentities⟩ := Failing.bind_eq_ok.mp hentities
  obtain ⟨state', next, hget, hentities⟩ := Failing.bind_eq_ok.mp hentities
  cases hget
  refine ⟨granted, compared, issued, hgrants, hlast, hcreated, hissue, fun output houtput => ?_⟩
  rw [houtput] at hentities
  exact ⟨final, hentities⟩

variable {chain : Chain} {accept : Bool} {grantedState checked issued : TxState}

/-- Everything but the issues of a coinbase is authorised. -/
theorem AcceptedRun.authorised
    (hdrop : env.params.opDropDetailsScripts = true) (hfixed : env.params.fixedIn10007 = true)
    (hblock : chain.permissions.block ≠ -1) (hlive : chain.permissions.Live)
    (hscan : scanInputs env chain.assets chain.permissions tx = .ok inputs)
    (hmetadata : ∀ j (hj : j < tx.vout.length),
      (McScript.setScript env.params tx.vout[j].scriptPubKey).isOpReturn = true →
      inputs.scriptHashAllFound = true ∨ env.params.fixedIn10007 = true
        ∧ j < inputs.inputs.length ∧ inputs.hashType j = .single)
    (hrun : AcceptedRun env tx inputs offset chain accept grantedState checked issued)
    (hissues : tx.isCoinBase = true → ¬ CarriesIssue env.params tx) :
    Authorised env.params chain.assets tx inputs grantedState.permissions := by
  have hgranting := @permissionPasses_granting env chain.assets tx inputs chain.permissions offset
    chain.seedNode (checkPointed inputs chain) (granting_checkPointed hlive)
  rw [hrun.grants] at hgranting
  have hstart : Checking chain.assets grantedState.permissions grantedState :=
    ⟨hgranting.assets_eq, hgranting.store.live, ⟨fun _ _ => rfl, rfl, rfl⟩⟩
  have hchecked := (@lastPass_checking env tx inputs offset chain.seedNode chain.assets
    grantedState.permissions).runPass grantedState hstart
  rw [hrun.last] at hchecked
  obtain ⟨planned, hplan, hsame, hissuers⟩ := acceptAssetGenesis_plan hrun.issue
  rw [hchecked.assets_eq] at hplan
  -- what the transaction carries of assets is planned, and so has issuers
  have hplanned (hcarries : CarriesIssue env.params tx) :
      checked.newEntityOutput = none ∧ ∃ scan plan, Found env.params tx scan
        ∧ Planned env inputs checked.permissions chain.assets scan plan ∧ plan.issuers ≠ [] := by
    have hcoinbase : tx.isCoinBase = false := by
      cases hcoinbase : tx.isCoinBase with
      | true => exact absurd hcarries (hissues hcoinbase)
      | false => rfl
    obtain ⟨hnone, scan, plan, hfound, rfl, hplanned⟩ :=
      planIssue_found hcoinbase hdrop hplan hcarries
    exact ⟨Option.isNone_iff_eq_none.mp (Option.isSome_eq_false_iff.mp hnone), scan, plan, hfound,
      hplanned, hissuers plan rfl⟩
  have hissuer {entity : Hash256} {plan : IssuePlan} (hnonempty : plan.issuers ≠ [])
      (heq : plan.issuers = issuersOf env inputs checked.permissions entity) :
      HasIssuer env.params inputs grantedState.permissions entity :=
    (hasIssuer_of_issuersOf (heq ▸ hnonempty)).of_checks hchecked.checks
  refine ⟨fun j stream hitem => ?_, fun j stream hitem => lastPass_writers hfixed hstart hrun.last
    hitem, fun output hmem hnew => ?_, fun output hmem ref hfollowOn => ?_,
    fun output hmem asset hupdate => ?_, fun j entity hentity => ?_⟩
  · obtain ⟨output, -, houtput, hreturn, -⟩ := hitem.output
    obtain ⟨hj, rfl⟩ := List.getElem?_eq_some_iff.mp houtput
    exact exists_signer hblock hscan (hmetadata j hj hreturn)
  · obtain ⟨-, scan, plan, hfound, hplanned, hnonempty⟩ := hplanned ⟨output, hmem, .inl hnew⟩
    exact hissuer hnonempty (hplanned.newAsset (hfound.newAsset output hmem hnew))
  · obtain ⟨-, scan, plan, hfound, hplanned, hnonempty⟩ :=
      hplanned ⟨output, hmem, .inr (.inl ⟨ref, hfollowOn⟩)⟩
    obtain ⟨entity, hfind, heq⟩ := hplanned.followOn ref (hfound.followOn output hmem ref hfollowOn)
    exact ⟨entity, hfind, hissuer hnonempty heq⟩
  · obtain ⟨-, scan, plan, hfound, hplanned, hnonempty⟩ :=
      hplanned ⟨output, hmem, .inr (.inr ⟨asset, hupdate⟩)⟩
    obtain ⟨hdetails, hshort⟩ := hfound.update output hmem asset hupdate
    obtain ⟨entity, hasset, heq⟩ := hplanned.update hdetails
    exact ⟨entity, hasset.trans hshort, hissuer hnonempty heq⟩
  have hj : j < tx.vout.length := by
    obtain ⟨output, houtput, -⟩ := hentity.output
    exact (List.getElem?_eq_some_iff.mp houtput).1
  obtain ⟨hnoted, htype⟩ := hrun.created.noted j hj entity hentity
  have hnone : ¬ CarriesIssue env.params tx := by
    intro hcarries
    rw [(hplanned hcarries).1] at hnoted
    cases hnoted
  have htype := htype fun output hmem asset hupdate =>
    hnone ⟨output, hmem, .inr (.inr ⟨asset, hupdate⟩)⟩
  rw [hnoted] at hplan
  obtain rfl := hsame (planIssue_of_newEntity hplan)
  obtain ⟨final, hopen⟩ := hrun.newEntity j hnoted
  obtain ⟨i, hi, hcreate, hadmin⟩ := acceptNewEntity_opener hopen
  refine ⟨i, hi, ?_, fun hupgrade => ?_⟩
  · rwa [hchecked.checks.canCreate_eq] at hcreate
  rw [← htype] at hupgrade
  have hadmin := hadmin hupgrade
  rwa [hchecked.checks.canAdmin_eq] at hadmin

/-- The entity operations of an accepted transaction are authorised, with the permissions as
they are behind its own grants, unless a coinbase issues something: nobody is asked then. -/
theorem accepted_authorised_iff (hmultichain : env.params.isProtocolMultichain = true)
    (hlatest : 10007 ≤ env.params.protocolVersion)
    (hreach : Store.Reachable env.params chain.permissions) (hblock : chain.permissions.block ≠ -1)
    (haccept : (acceptMultiChainTransaction env tx offset chain accept).reason = none) :
    ∃ inputs granted, scanInputs env chain.assets chain.permissions tx = .ok inputs
      ∧ permissionPasses env tx inputs offset chain.seedNode (checkPointed inputs chain)
        = .ok () granted
      ∧ RowsAdded (SignedGrant env chain.assets tx inputs chain.permissions) chain.permissions
        granted.permissions ∧ (Authorised env.params chain.assets tx inputs granted.permissions
        ↔ (tx.isCoinBase = true → ¬ CarriesIssue env.params tx)) := by
  have hfeature : env.params.since 10007 = true :=
    Bool.and_eq_true_iff.mpr ⟨hmultichain, decide_eq_true hlatest⟩
  obtain ⟨inputs, final, hscan, hprocess⟩ := accepted_run hmultichain haccept
  obtain ⟨granted, checked, issued, hrun⟩ := acceptedRun hfeature hprocess
  have hgranting := @permissionPasses_granting env chain.assets tx inputs chain.permissions offset
    chain.seedNode (checkPointed inputs chain) (granting_checkPointed hreach.live)
  rw [hrun.grants] at hgranting
  refine ⟨inputs, granted, hscan, hrun.grants, hgranting.store.added, fun hauthorised => ?_,
    fun hissues => hrun.authorised hfeature hfeature hblock hreach.live hscan ?_ hissues⟩
  · rintro hcoinbase ⟨output, hmem, hnew | ⟨ref, hfollowOn⟩ | ⟨asset, hupdate⟩⟩
    · exact not_hasIssuer_of_coinbase hblock hcoinbase hscan _
        (hauthorised.newAsset output hmem hnew)
    · obtain ⟨entity, -, hissuer⟩ := hauthorised.followOn output hmem ref hfollowOn
      exact not_hasIssuer_of_coinbase hblock hcoinbase hscan _ hissuer
    obtain ⟨entity, -, hissuer⟩ := hauthorised.update output hmem asset hupdate
    exact not_hasIssuer_of_coinbase hblock hcoinbase hscan _ hissuer
  intro j hj hreturn
  obtain ⟨before, after, hcheck⟩ := accepted_metadata hprocess hj hreturn
  exact (checkMetadata_inputs hcheck).1

theorem accepted_authorised_iff_issue :
    ∃ inputs granted, scanInputs minedOnceEnv minedOnceChain.assets minedOnceChain.permissions
          grantIssueTx = .ok inputs
      ∧ permissionPasses minedOnceEnv grantIssueTx inputs (-1) minedOnceChain.seedNode
          (checkPointed inputs minedOnceChain) = .ok () granted
      ∧ RowsAdded (SignedGrant minedOnceEnv minedOnceChain.assets grantIssueTx inputs
          minedOnceChain.permissions) minedOnceChain.permissions granted.permissions
      ∧ (Authorised minedOnceEnv.params minedOnceChain.assets grantIssueTx inputs
          granted.permissions
        ↔ (grantIssueTx.isCoinBase = true → ¬ CarriesIssue minedOnceEnv.params grantIssueTx)) :=
  @accepted_authorised_iff minedOnceEnv grantIssueTx (-1) minedOnceChain true rfl (by decide)
    Store.minedOnce_reachable (by decide +kernel) (by decide +kernel)

def followOnScript (shortTxid quantity : ℕ) : Bytes :=
  28 :: MC_DCT_SCRIPT_MULTICHAIN_IDENTIFIER
    ++ MC_DCT_SCRIPT_MULTICHAIN_ASSET_FOLLOWON_PREFIX :: putLE shortTxid 16 ++ putLE quantity 8
    ++ [OP_DROP]

/-- A miner who may not issue adds to an asset. -/
def followOnCoinbase : Tx where
  hash := 2
  vin := [⟨⟨0, 0xffffffff⟩, []⟩]
  vout := [⟨0, keyHashScript 0x4e ++ followOnScript 1 5⟩]

def issuedChain : Chain :=
  { minedOnceChain with assets := issuedAssets }

def coinbaseInputs : Inputs where
  inputs := [⟨.nonstandard, 0, .all⟩]
  scriptHashAllFound := true
  rejectIfOpDropOpReturn := false
  checkCachedScript := true
  canGrantAdminMine := [false]
  amounts := []

/-- A coinbase with a follow-on is accepted, nobody signed it with a permission to issue, and
what spends it gets the units. -/
theorem coinbase_issues_unauthorised :
    (acceptMultiChainTransaction minedOnceEnv followOnCoinbase (-1) issuedChain true).reason = none
      ∧ scanInputs minedOnceEnv issuedChain.assets issuedChain.permissions followOnCoinbase
        = .ok coinbaseInputs
      ∧ (∀ store, ¬ Authorised minedOnceEnv.params issuedChain.assets followOnCoinbase
          coinbaseInputs store) ∧ extractInputAssetQuantities .defaults issuedAssets
          (keyHashScript 0x4e ++ followOnScript 1 5) 2 [] = .ok [⟨issuedRef, 5, 2⟩] := by
  refine ⟨by decide +kernel, rfl, fun store hauthorised => ?_, by decide +kernel⟩
  have hquantities : quantitiesElement .defaults
      ((McScript.setScript .defaults (keyHashScript 0x4e ++ followOnScript 1 5)).setElement 0)
      MC_SCR_ASSET_SCRIPT_TYPE_FOLLOWON = .ok (2, [⟨issuedRef, 5⟩]) := by decide +kernel
  have hfollowOn : FollowOnIn .defaults ⟨0, keyHashScript 0x4e ++ followOnScript 1 5⟩ issuedRef :=
    ⟨by decide +kernel, 0, by decide +kernel, 2, [⟨issuedRef, 5⟩], hquantities, _,
      List.mem_singleton_self _, rfl⟩
  obtain ⟨entity, -, hissuer⟩ := hauthorised.followOn _ (List.mem_singleton_self _) issuedRef
    hfollowOn
  exact @not_hasIssuer_of_coinbase minedOnceEnv followOnCoinbase coinbaseInputs issuedAssets
    minedOnceChain.permissions store (by decide +kernel) rfl rfl _ hissuer

end Amberchain.Transaction
