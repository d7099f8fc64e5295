import Amberchain.Transaction.Conservation
import Amberchain.Transaction.Issue
import Mathlib.Data.List.GetD

/-!
# What a transaction issues

The scan for issues keeps what it has found, so whatever an output issues or adds to an
asset shows at its end.
-/

namespace Amberchain.Transaction

open Entity Permission

variable {params : ChainParams} {env : TxEnv} {tx : Tx} {inputs : Inputs} {assets : AssetDB}

/-- The output issues a new asset: a genesis quantity, or the details of a new asset. -/
inductive NewAssetIn (params : ChainParams) (output : TxOut) : Prop where
  | quantity (e : ℕ) (quantity : BitVec 64)
      (hreturn : (McScript.setScript params output.scriptPubKey).isOpReturn = false)
      (he : e < (McScript.setScript params output.scriptPubKey).numElements)
      (hgenesis : ((McScript.setScript params output.scriptPubKey).setElement e).getAssetGenesis
        = .ok quantity)
  | details (entity : McScript.NewEntity)
      (hreturn : (McScript.setScript params output.scriptPubKey).isOpReturn = true)
      (htwo : (McScript.setScript params output.scriptPubKey).numElements = 2)
      (hentity : ((McScript.setScript params output.scriptPubKey).setElement 0).getNewEntity
        = .ok entity)
      (htype : entity.type = MC_ENT_TYPE_ASSET) (hnew : entity.update = false)

structure FollowOnIn (params : ChainParams) (output : TxOut) (ref : FullRef) : Prop where
  notReturn : (McScript.setScript params output.scriptPubKey).isOpReturn = false
  element : ∃ e < (McScript.setScript params output.scriptPubKey).numElements,
    ∃ found items, quantitiesElement params
        ((McScript.setScript params output.scriptPubKey).setElement e)
        MC_SCR_ASSET_SCRIPT_TYPE_FOLLOWON = .ok (found, items)
      ∧ ∃ item ∈ items, item.ref = ref

structure UpdateIn (params : ChainParams) (output : TxOut) (asset : BitVec 128) : Prop where
  isReturn : (McScript.setScript params output.scriptPubKey).isOpReturn = true
  many : 0 < (McScript.setScript params output.scriptPubKey).numElements
  entity : ∃ entity,
    ((McScript.setScript params output.scriptPubKey).setElement 1).getNewEntity = .ok entity
      ∧ entity.type = MC_ENT_TYPE_ASSET ∧ entity.update = true
  asset : (((McScript.setScript params output.scriptPubKey).setElement 1).setElement 0).getEntity
    = .ok asset

def CarriesIssue (params : ChainParams) (tx : Tx) : Prop :=
  ∃ output ∈ tx.vout, NewAssetIn params output ∨ (∃ ref, FollowOnIn params output ref)
    ∨ ∃ asset, UpdateIn params output asset

def Amounts.refs (amounts : Amounts) : List FullRef :=
  amounts.map AmountRow.ref

theorem addItem_refs {amounts next : Amounts} {found found' : BitVec 32} {item : AssetItem}
    (hadd : addItem (amounts, found) item = .ok (next, found')) :
    (∀ ref ∈ amounts.refs, ref ∈ next.refs) ∧ item.ref ∈ next.refs := by
  unfold addItem at hadd
  dsimp only at hadd
  split at hadd
  · cases hadd
  split at hadd
  next hseek =>
    cases hadd
    unfold Amounts.refs
    rw [List.map_append]
    exact ⟨fun ref hmem => List.mem_append_left _ hmem,
      List.mem_append_right _ (List.mem_singleton_self _)⟩
  next index hseek =>
    split at hadd
    · cases hadd
    cases hadd
    obtain ⟨hlt, href, -⟩ := List.findIdx?_eq_some_iff_getElem.mp hseek
    have hrow : (amounts.getRow item.ref index).ref = amounts[index].ref := by
      unfold Amounts.getRow
      rw [List.getD_eq_getElem _ _ hlt]
    have hsame : ∀ row : AmountRow, row.ref = amounts[index].ref →
        Amounts.refs (amounts.set index row) = amounts.refs := by
      intro row hrow
      unfold Amounts.refs
      rw [List.map_set, hrow, ← List.getElem_map AmountRow.ref (h := by simpa using hlt)]
      exact List.set_getElem_self _
    refine ⟨fun ref hmem => ?_, ?_⟩
    · rwa [hsame _ (by exact hrow)]
    rw [hsame _ (by exact hrow), ← of_decide_eq_true href]
    exact List.mem_map_of_mem (List.getElem_mem hlt)

variable {script : McScript}

theorem getAssetQuantities_refs {amounts next : Amounts} {scriptType : BitVec 32}
    (hget : getAssetQuantities params script amounts scriptType = .ok next) :
    (∀ ref ∈ amounts.refs, ref ∈ next.refs)
      ∧ ∀ found items, quantitiesElement params script scriptType = .ok (found, items) →
        ∀ item ∈ items, item.ref ∈ next.refs := by
  obtain ⟨⟨found, items⟩, helement, hget⟩ := Folding.bind_eq_ok.mp hget
  obtain ⟨⟨final, found'⟩, hitems, hend⟩ := Folding.bind_eq_ok.mp hget
  cases hend
  obtain ⟨hmoves, hrounds⟩ := @Folding.foldlM_moves _ _ _ addItem
    (fun state next => ∀ ref ∈ state.1.refs, ref ∈ next.1.refs) (fun _ _ hmem => hmem)
    (fun hfirst hsecond ref hmem => hsecond ref (hfirst ref hmem))
    (fun hadd => (addItem_refs hadd).1) _ _ _ hitems
  refine ⟨hmoves, fun found'' items'' helement' item hmem => ?_⟩
  rw [helement] at helement'
  cases helement'
  obtain ⟨state, after, hround, hlater⟩ := hrounds item hmem
  exact hlater item.ref (addItem_refs hround).2

/-- What was found stays found. -/
structure Later (scan next : IssueScan) : Prop where
  newIssue : scan.newIssue = true → next.newIssue = true
  details : ∀ update, scan.detailsUpdate = some update →
    next.detailsUpdate = some update ∧ next.shortTxid = scan.shortTxid
  refs : ∀ ref ∈ scan.amounts.refs, ref ∈ next.amounts.refs

theorem Later.refl (scan : IssueScan) : Later scan scan :=
  ⟨id, fun _ hupdate => ⟨hupdate, rfl⟩, fun _ hmem => hmem⟩

theorem Later.trans {first second third : IssueScan} (hfirst : Later first second)
    (hsecond : Later second third) : Later first third where
  newIssue := hsecond.newIssue ∘ hfirst.newIssue
  details := fun update hupdate => by
    obtain ⟨hsome, hshort⟩ := hfirst.details update hupdate
    obtain ⟨hsome', hshort'⟩ := hsecond.details update hsome
    exact ⟨hsome', hshort'.trans hshort⟩
  refs := fun ref hmem => hsecond.refs ref (hfirst.refs ref hmem)

variable {scan next : IssueScan}

theorem newAssetDetails_later
    (hdetails : newAssetDetails script scan = .ok next) : Later scan next := by
  unfold newAssetDetails at hdetails
  split at hdetails
  · cases hdetails
    exact .refl _
  · cases hdetails
  dsimp only at hdetails
  split at hdetails
  · cases hdetails
    exact ⟨id, fun _ hupdate => ⟨hupdate, rfl⟩, fun _ hmem => hmem⟩
  split at hdetails
  · cases hdetails
  next hnone =>
    split at hdetails
    · cases hdetails
      exact ⟨id, fun _ hupdate => ⟨hupdate, rfl⟩, fun _ hmem => hmem⟩
    cases hdetails
    refine ⟨id, fun update hupdate => ?_, fun _ hmem => hmem⟩
    rw [hupdate] at hnone
    exact absurd rfl hnone

variable {entity : McScript.NewEntity}

theorem newAssetDetails_found (hentity : (script.setElement 0).getNewEntity = .ok entity)
    (htype : entity.type = MC_ENT_TYPE_ASSET) (hnew : entity.update = false)
    (hdetails : newAssetDetails script scan = .ok next) : next.detailsUpdate = some false := by
  unfold newAssetDetails at hdetails
  rw [hentity] at hdetails
  dsimp only at hdetails
  rw [if_neg (not_not.mpr htype)] at hdetails
  split at hdetails
  · cases hdetails
  rw [if_neg (by rw [hnew]; exact Bool.false_ne_true)] at hdetails
  cases hdetails
  rfl

theorem assetUpdateDetails_later
    (hdetails : assetUpdateDetails assets script scan = .ok next) : Later scan next := by
  unfold assetUpdateDetails at hdetails
  dsimp only at hdetails
  split at hdetails
  · cases hdetails
    exact .refl _
  split at hdetails
  · cases hdetails
    exact ⟨id, fun _ hupdate => ⟨hupdate, rfl⟩, fun _ hmem => hmem⟩
  split at hdetails
  · cases hdetails
  split at hdetails
  · cases hdetails
  next hnone =>
    split at hdetails
    · cases hdetails
    split at hdetails
    · cases hdetails
    split at hdetails
    · cases hdetails
    cases hdetails
    refine ⟨id, fun update hupdate => ?_, fun _ hmem => hmem⟩
    rw [hupdate] at hnone
    exact absurd rfl hnone

theorem getNewEntity_eq_ok (hentity : script.getNewEntity = .ok entity) :
    script.readNewEntity = .ok entity ∧ Details.verify entity.details = true := by
  obtain ⟨read, hread, hverify⟩ := Folding.bind_eq_ok.mp hentity
  split at hverify
  next hverified =>
    cases hverify
    exact ⟨hread, hverified⟩
  · cases hverify

theorem assetUpdateDetails_found {asset : BitVec 128}
    (hentity : (script.setElement 1).getNewEntity = .ok entity)
    (htype : entity.type = MC_ENT_TYPE_ASSET) (hupdate : entity.update = true)
    (hasset : ((script.setElement 1).setElement 0).getEntity = .ok asset)
    (hdetails : assetUpdateDetails assets script scan = .ok next) :
    next.detailsUpdate = some true ∧ next.shortTxid = asset := by
  obtain ⟨hread, hverify⟩ := getNewEntity_eq_ok hentity
  unfold assetUpdateDetails at hdetails
  dsimp only at hdetails
  rw [hread] at hdetails
  dsimp only at hdetails
  rw [if_neg (not_not.mpr hverify), if_neg (not_not.mpr hupdate)] at hdetails
  split at hdetails
  · cases hdetails
  rw [if_neg (not_not.mpr htype), hasset] at hdetails
  dsimp only at hdetails
  split at hdetails
  · cases hdetails
  cases hdetails
  exact ⟨rfl, rfl⟩

theorem issueMetadata_later (hdrop : env.params.opDropDetailsScripts = true) {script : McScript}
    {scan next : IssueScan} (hmetadata : issueMetadata env assets script scan = .ok next) :
    ∃ middle, (if script.numElements = 2 then newAssetDetails script scan else .ok scan)
        = .ok middle
      ∧ (if 0 < script.numElements then assetUpdateDetails assets script middle else .ok middle)
        = .ok next
      ∧ Later scan middle ∧ Later middle next := by
  unfold issueMetadata at hmetadata
  rw [if_pos hdrop] at hmetadata
  have hparts : ∃ middle, (if script.numElements = 2 then newAssetDetails script scan else .ok scan)
        = .ok middle
      ∧ (if 0 < script.numElements then assetUpdateDetails assets script middle else .ok middle)
        = .ok next := by
    dsimp only at hmetadata
    split at hmetadata
    next htwo =>
      rw [if_pos htwo]
      exact Folding.bind_eq_ok.mp hmetadata
    next hother =>
      rw [if_neg hother]
      exact Folding.bind_eq_ok.mp hmetadata
  obtain ⟨middle, hfirst, hsecond⟩ := hparts
  refine ⟨middle, hfirst, hsecond, ?_, ?_⟩
  · split at hfirst
    · exact newAssetDetails_later hfirst
    cases hfirst
    exact .refl _
  split at hsecond
  · exact assetUpdateDetails_later hsecond
  cases hsecond
  exact .refl _

theorem issueElement_later {output : Bytes} {e : ℕ}
    (helement : issueElement env script output scan e = .ok next) : Later scan next := by
  unfold issueElement at helement
  dsimp only at helement
  split at helement
  · split at helement
    · cases helement
    split at helement
    · cases helement
    cases helement
    exact ⟨fun _ => rfl, fun _ hupdate => ⟨hupdate, rfl⟩, fun _ hmem => hmem⟩
  · split at helement
    next amounts hget =>
      cases helement
      exact ⟨id, fun _ hupdate => ⟨hupdate, rfl⟩, (getAssetQuantities_refs hget).1⟩
    · cases helement
      exact .refl _
    · cases helement
  cases helement

theorem issueElement_newAsset {output : Bytes} {e : ℕ}
    {quantity : BitVec 64} (hgenesis : (script.setElement e).getAssetGenesis = .ok quantity)
    (helement : issueElement env script output scan e = .ok next) : next.newIssue = true := by
  unfold issueElement at helement
  dsimp only at helement
  rw [hgenesis] at helement
  dsimp only at helement
  split at helement
  · cases helement
  split at helement
  · cases helement
  cases helement
  rfl

/-- An element with quantities is not one with a genesis quantity. -/
theorem getAssetGenesis_of_quantities {found : BitVec 32} {items : List AssetItem}
    (hquantities : quantitiesElement params script MC_SCR_ASSET_SCRIPT_TYPE_FOLLOWON
      = .ok (found, items)) : script.getAssetGenesis = .error .wrongScript := by
  unfold quantitiesElement at hquantities
  cases hcurrent : script.current with
  | none =>
    rw [hcurrent] at hquantities
    cases hquantities
  | some element =>
    unfold McScript.payload at hquantities
    rw [hcurrent] at hquantities
    dsimp only at hquantities
    unfold McScript.getAssetGenesis McScript.payload
    rw [hcurrent]
    dsimp only
    by_cases hmarker : (script.elements.getD element [])[3]?
        = some MC_DCT_SCRIPT_MULTICHAIN_ASSET_FOLLOWON_PREFIX
    · rw [if_pos (.inr (.inr (by rw [hmarker]; decide)))]
      rfl
    rw [if_pos (Or.inr (Or.inr hmarker))] at hquantities
    cases hquantities

theorem issueElement_followOn {output : Bytes} {e : ℕ}
    {found : BitVec 32} {items : List AssetItem} {item : AssetItem}
    (hquantities : quantitiesElement env.params (script.setElement e)
      MC_SCR_ASSET_SCRIPT_TYPE_FOLLOWON = .ok (found, items)) (hmem : item ∈ items)
    (helement : issueElement env script output scan e = .ok next) :
    item.ref ∈ next.amounts.refs := by
  unfold issueElement at helement
  dsimp only at helement
  rw [getAssetGenesis_of_quantities hquantities] at helement
  dsimp only at helement
  split at helement
  next amounts hget =>
    cases helement
    exact (getAssetQuantities_refs hget).2 found items hquantities item hmem
  next hwrong =>
    obtain ⟨err, herror⟩ := quantitiesElement_of_wrongScript hwrong
    rw [hquantities] at herror
    cases herror
  · cases helement

theorem issueOutput_later (hdrop : env.params.opDropDetailsScripts = true) {scan next : IssueScan}
    {output : TxOut} (houtput : issueOutput env assets scan output = .ok next) :
    Later scan next := by
  unfold issueOutput at houtput
  dsimp only at houtput
  split at houtput
  · obtain ⟨middle, -, -, hfirst, hsecond⟩ := issueMetadata_later hdrop houtput
    exact hfirst.trans hsecond
  exact (Folding.foldlM_moves Later.refl Later.trans issueElement_later houtput).1

theorem issueOutput_element {output : TxOut} {e : ℕ}
    (hreturn : (McScript.setScript env.params output.scriptPubKey).isOpReturn = false)
    (he : e < (McScript.setScript env.params output.scriptPubKey).numElements)
    (houtput : issueOutput env assets scan output = .ok next) :
    ∃ before after, issueElement env (McScript.setScript env.params output.scriptPubKey)
        output.scriptPubKey before e = .ok after ∧ Later after next := by
  unfold issueOutput at houtput
  rw [if_neg (by rw [hreturn]; exact Bool.false_ne_true)] at houtput
  exact (Folding.foldlM_moves Later.refl Later.trans issueElement_later houtput).2 e
    (List.mem_range.mpr he)

theorem issueOutput_newAsset (hdrop : env.params.opDropDetailsScripts = true)
    {scan next : IssueScan} {output : TxOut} (hnew : NewAssetIn env.params output)
    (houtput : issueOutput env assets scan output = .ok next) :
    next.newIssue = true ∨ next.detailsUpdate = some false := by
  cases hnew with
  | quantity e quantity hreturn he hgenesis =>
    obtain ⟨before, after, helement, hlater⟩ := issueOutput_element hreturn he houtput
    exact .inl (hlater.newIssue (issueElement_newAsset hgenesis helement))
  | details entity hreturn htwo hentity htype hnew =>
    unfold issueOutput at houtput
    rw [if_pos hreturn] at houtput
    obtain ⟨middle, hfirst, -, -, hlater⟩ := issueMetadata_later hdrop houtput
    rw [if_pos htwo] at hfirst
    exact .inr (hlater.details _ (newAssetDetails_found hentity htype hnew hfirst)).1

theorem issueOutput_followOn {output : TxOut} {ref : FullRef}
    (hfollowOn : FollowOnIn env.params output ref)
    (houtput : issueOutput env assets scan output = .ok next) : ref ∈ next.amounts.refs := by
  obtain ⟨hreturn, e, he, found, items, hquantities, item, hmem, rfl⟩ := hfollowOn
  obtain ⟨before, after, helement, hlater⟩ := issueOutput_element hreturn he houtput
  exact hlater.refs _ (issueElement_followOn hquantities hmem helement)

theorem issueOutput_update (hdrop : env.params.opDropDetailsScripts = true)
    {scan next : IssueScan} {output : TxOut} {asset : BitVec 128}
    (hupdate : UpdateIn env.params output asset)
    (houtput : issueOutput env assets scan output = .ok next) :
    next.detailsUpdate = some true ∧ next.shortTxid = asset := by
  obtain ⟨hreturn, hmany, ⟨entity, hentity, htype, hupdate⟩, hasset⟩ := hupdate
  unfold issueOutput at houtput
  rw [if_pos hreturn] at houtput
  obtain ⟨middle, -, hsecond, -, -⟩ := issueMetadata_later hdrop houtput
  rw [if_pos hmany] at hsecond
  exact assetUpdateDetails_found hentity htype hupdate hasset hsecond

structure Found (params : ChainParams) (tx : Tx) (scan : IssueScan) : Prop where
  newAsset : ∀ output ∈ tx.vout, NewAssetIn params output →
    scan.newIssue = true ∨ scan.detailsUpdate = some false
  followOn : ∀ output ∈ tx.vout, ∀ ref, FollowOnIn params output ref → ref ∈ scan.amounts.refs
  update : ∀ output ∈ tx.vout, ∀ asset, UpdateIn params output asset →
    scan.detailsUpdate = some true ∧ scan.shortTxid = asset

theorem scanIssue_found (hdrop : env.params.opDropDetailsScripts = true) {scan : IssueScan}
    (hscan : scanIssue env tx assets = .ok scan) : Found env.params tx scan := by
  have hrounds := (Folding.foldlM_moves Later.refl Later.trans (issueOutput_later hdrop) hscan).2
  refine ⟨fun output hmem hnew => ?_, fun output hmem ref hfollowOn => ?_,
    fun output hmem asset hupdate => ?_⟩
  · obtain ⟨before, after, hround, hlater⟩ := hrounds output hmem
    exact (issueOutput_newAsset hdrop hnew hround).imp hlater.newIssue
      fun hdetails => (hlater.details _ hdetails).1
  · obtain ⟨before, after, hround, hlater⟩ := hrounds output hmem
    exact hlater.refs ref (issueOutput_followOn hfollowOn hround)
  obtain ⟨before, after, hround, hlater⟩ := hrounds output hmem
  obtain ⟨hdetails, hshort⟩ := issueOutput_update hdrop hupdate hround
  obtain ⟨hdetails', hshort'⟩ := hlater.details _ hdetails
  exact ⟨hdetails', hshort'.trans hshort⟩

/-- The issue that a transaction plans, when it carries one: what it was found to issue,
and the issuers of that. -/
structure Planned (env : TxEnv) (inputs : Inputs) (store : Store) (assets : AssetDB)
    (scan : IssueScan) (plan : IssuePlan) : Prop where
  newAsset : scan.newIssue = true ∨ scan.detailsUpdate = some false →
    plan.issuers = issuersOf env inputs store nullEntity
  followOn : ∀ ref ∈ scan.amounts.refs, ∃ entity, assets.findEntityByFullRef ref = some entity
    ∧ plan.issuers = issuersOf env inputs store entity.key.key
  update : scan.detailsUpdate = some true → ∃ entity : EntityRow,
    shortTxid entity.key.key = scan.shortTxid
      ∧ plan.issuers = issuersOf env inputs store entity.key.key

theorem checked_eq_ok {first second third last : Prop} [Decidable first] [Decidable second]
    [Decidable third] [Decidable last] {reason₀ reason₁ reason₂ reason₃ : String}
    {value target : EntityRow × BitVec 64}
    (hchecked : (if first then .error reason₀ else if second then .error reason₁
      else if third then .error reason₂ else if last then .error reason₃
      else .ok value : Except String (EntityRow × BitVec 64)) = .ok target) :
    ¬ third ∧ target = value := by
  split_ifs at hchecked with hfirst hsecond hthird hlast
  cases hchecked
  exact ⟨hthird, rfl⟩

theorem followOnTarget_eq_ok {scan : IssueScan} {target : EntityRow × BitVec 64}
    (htarget : followOnTarget env assets scan = .ok target) :
    (scan.detailsUpdate.isSome = true → shortTxid target.1.key.key = scan.shortTxid)
      ∧ ∀ row, scan.amounts.head? = some row →
        assets.findEntityByFullRef row.ref = some target.1 := by
  have hchecks (entity : EntityRow)
      (h : ¬ (scan.detailsUpdate.isSome = true ∧ shortTxid entity.key.key ≠ scan.shortTxid)) :
      scan.detailsUpdate.isSome = true → shortTxid entity.key.key = scan.shortTxid :=
    fun hsome => by_contra fun hother => h ⟨hsome, hother⟩
  unfold followOnTarget at htarget
  cases hrow : scan.amounts.head? with
  | none =>
    rw [hrow] at htarget
    split at htarget
    · cases htarget
    next entity hfound =>
      obtain ⟨_, hentity, htarget⟩ := Folding.bind_eq_ok.mp htarget
      cases hentity
      obtain ⟨hmatch, rfl⟩ := checked_eq_ok htarget
      exact ⟨hchecks entity hmatch, fun row hnone => nomatch hnone⟩
  | some row =>
    rw [hrow] at htarget
    dsimp only at htarget
    split at htarget
    · cases htarget
    next entity hfound =>
      obtain ⟨_, hentity, htarget⟩ := Folding.bind_eq_ok.mp htarget
      cases hentity
      obtain ⟨hmatch, rfl⟩ := checked_eq_ok htarget
      refine ⟨hchecks entity hmatch, fun row' hsome => ?_⟩
      rwa [← Option.some.inj hsome]

/-- A transaction that carries an issue plans it, unless it is a coinbase or makes another
new entity. -/
theorem planIssue_found (hcoinbase : tx.isCoinBase = false)
    (hdrop : env.params.opDropDetailsScripts = true) {newEntity : Bool} {store : Store}
    {planned : Option IssuePlan}
    (hplan : planIssue env tx inputs newEntity store assets = .ok planned)
    (hcarries : CarriesIssue env.params tx) :
    newEntity = false ∧ ∃ scan plan, Found env.params tx scan ∧ planned = some plan
      ∧ Planned env inputs store assets scan plan := by
  unfold planIssue at hplan
  rw [if_neg (by rw [hcoinbase]; exact Bool.false_ne_true)] at hplan
  obtain ⟨scan, hscan, hplan⟩ := Folding.bind_eq_ok.mp hplan
  have hfound := scanIssue_found hdrop hscan
  have hany : scan.newIssue = true ∨ scan.detailsUpdate = some false
      ∨ scan.detailsUpdate = some true ∨ scan.amounts ≠ [] := by
    obtain ⟨output, hmem, hnew | ⟨ref, hfollowOn⟩ | ⟨asset, hupdate⟩⟩ := hcarries
    · exact (hfound.newAsset output hmem hnew).imp_right .inl
    · have href := hfound.followOn output hmem ref hfollowOn
      refine .inr (.inr (.inr fun hnil => ?_))
      rw [hnil] at href
      cases href
    · exact .inr (.inr (.inl (hfound.update output hmem asset hupdate).1))
  generalize hnew : (scan.newIssue || decide (scan.detailsUpdate = some false)) = newIssue at hplan
  generalize hfollow : (decide (scan.detailsUpdate = some true) || !scan.amounts.isEmpty) = followOn
    at hplan
  have hnewIssue : newIssue = true ↔ scan.newIssue = true ∨ scan.detailsUpdate = some false := by
    rw [← hnew, Bool.or_eq_true, decide_eq_true_eq]
  have hfollowOn : followOn = true ↔ scan.detailsUpdate = some true ∨ scan.amounts ≠ [] := by
    rw [← hfollow, Bool.or_eq_true, decide_eq_true_eq, Bool.not_eq_true', List.isEmpty_eq_false_iff]
  dsimp only at hplan
  split at hplan
  · cases hplan
  next hseveral =>
  split at hplan
  · cases hplan
  next hboth =>
  have htarget : ∃ target, (followOn = true → followOnTarget env assets scan = .ok target)
      ∧ (if ¬newIssue = true ∧ ¬followOn = true then .ok none
        else if newEntity = true then
          .error ("Asset issue script rejected - not allowed in this transaction, "
            ++ "conflicts with other entities")
        else .ok (some {
          newIssue := newIssue
          total := target.2
          name := scan.name
          multiple := scan.multiple
          details := scan.details
          entity := target.1
          issuers := issuersOf env inputs store
            (if newIssue = true then nullEntity else target.1.key.key) }) :
            Except String (Option IssuePlan)) = .ok planned := by
    split at hplan
    · obtain ⟨target, htarget, hplan⟩ := Folding.bind_eq_ok.mp hplan
      exact ⟨target, fun _ => htarget, hplan⟩
    next hnot =>
      obtain ⟨target, -, hplan⟩ := Folding.bind_eq_ok.mp hplan
      exact ⟨target, fun hfollow => absurd hfollow hnot, hplan⟩
  obtain ⟨target, htarget, hplan⟩ := htarget
  rw [if_neg (fun hnone => by
    rcases hany with h | h | h
    · exact hnone.1 (hnewIssue.mpr (.inl h))
    · exact hnone.1 (hnewIssue.mpr (.inr h))
    · exact hnone.2 (hfollowOn.mpr h))] at hplan
  split at hplan
  · cases hplan
  next hentity =>
  cases hplan
  refine ⟨Bool.eq_false_iff.mpr hentity, scan, _, hfound, rfl, fun hissue => ?_, fun ref href => ?_,
    fun hupdate => ?_⟩
  · exact congrArg (issuersOf env inputs store) (if_pos (hnewIssue.mpr hissue))
  · have hfollow : followOn = true := hfollowOn.mpr (.inr fun hnil => by rw [hnil] at href; cases href)
    have hold : ¬ newIssue = true := fun h => hboth ⟨hfollow, h⟩
    obtain ⟨-, hhead⟩ := followOnTarget_eq_ok (htarget hfollow)
    obtain ⟨row, hrow, rfl⟩ := List.mem_map.mp href
    have hone : scan.amounts.head? = some row := by
      have hlength : scan.amounts.length ≤ 1 := not_lt.mp fun h => hseveral ⟨hfollow, h⟩
      match hamounts : scan.amounts, hlength, hrow with
      | [only], _, hrow => rw [List.mem_singleton.mp hrow]; rfl
    refine ⟨target.1, hhead row hone, ?_⟩
    exact congrArg (issuersOf env inputs store) (if_neg hold)
  have hfollow : followOn = true := hfollowOn.mpr (.inl hupdate)
  have hold : ¬ newIssue = true := fun h => hboth ⟨hfollow, h⟩
  obtain ⟨hshort, -⟩ := followOnTarget_eq_ok (htarget hfollow)
  refine ⟨target.1, hshort (by rw [hupdate]; rfl), ?_⟩
  exact congrArg (issuersOf env inputs store) (if_neg hold)

end Amberchain.Transaction
