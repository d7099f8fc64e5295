import Amberchain.Transaction.IssueScan
import Amberchain.Transaction.PassRules

/-!
# The new entity of a transaction

The first pass notes the output with a new stream or upgrade and its type.  A second new
entity is rejected, and in the last pass only the update of an asset writes the type again.
-/

namespace Amberchain.Transaction

open Entity Permission Failing

structure NewEntityAt (params : ChainParams) (tx : Tx) (j : ℕ) (entity : McScript.NewEntity) :
    Prop where
  output : ∃ output, tx.vout[j]? = some output
    ∧ (McScript.setScript params output.scriptPubKey).isOpReturn = true
    ∧ (McScript.setScript params output.scriptPubKey).numElements = 2
    ∧ ((McScript.setScript params output.scriptPubKey).setElement 0).getNewEntity = .ok entity
  notAsset : entity.type ≠ MC_ENT_TYPE_ASSET

/-- The new entities among the first outputs have been noted, with their types unless an
asset is updated. -/
structure Created (params : ChainParams) (tx : Tx) (assets : AssetDB) (outputs : ℕ)
    (state : TxState) : Prop where
  assets_eq : state.assets = assets
  noted : ∀ j < outputs, ∀ entity, NewEntityAt params tx j entity →
    state.newEntityOutput = some j
      ∧ ((∀ output ∈ tx.vout, ∀ asset, ¬ UpdateIn params output asset) →
        state.newEntityType = entity.type)

variable {env : TxEnv} {tx : Tx} {inputs : Inputs} {offset : ℤ} {seedNode : Option Hash160}
  {assets : AssetDB} {outputs pass j : ℕ}

theorem Created.of_eq {params : ChainParams} {state next : TxState}
    (hcreated : Created params tx assets outputs state) (hassets : next.assets = state.assets)
    (houtput : next.newEntityOutput = state.newEntityOutput)
    (htype : next.newEntityType = state.newEntityType) : Created params tx assets outputs next := by
  refine ⟨hassets.trans hcreated.assets_eq, ?_⟩
  rw [houtput, htype]
  exact hcreated.noted

theorem Created.of_same {params : ChainParams} {state next : TxState}
    (hsame : SameDecisions state next) (hcreated : Created params tx assets outputs state) :
    Created params tx assets outputs next :=
  hcreated.of_eq hsame.assets hsame.newEntityOutput hsame.newEntityType

theorem Created.succ {params : ChainParams} {state : TxState}
    (hcreated : Created params tx assets j state)
    (hnone : ∀ entity, ¬ NewEntityAt params tx j entity) :
    Created params tx assets (j + 1) state := by
  refine ⟨hcreated.assets_eq, fun j' hlt entity hentity => ?_⟩
  rcases Nat.lt_succ_iff_lt_or_eq.mp hlt with hbefore | rfl
  · exact hcreated.noted j' hbefore entity hentity
  exact absurd hentity (hnone entity)

theorem modify_created {change : TxState → TxState}
    (hassets : ∀ state, (change state).assets = state.assets)
    (houtput : ∀ state, (change state).newEntityOutput = state.newEntityOutput)
    (htype : ∀ state, (change state).newEntityType = state.newEntityType) :
    Preserves (Created env.params tx assets outputs) (fun _ => True) (modify change : TxM Unit) :=
  Preserves.modify fun state hstate => hstate.of_eq (hassets state) (houtput state) (htype state)

theorem changeForInputs_created (change : ℕ → Store → Store × Option McError) (grantors : List ℕ) :
    Preserves (Created env.params tx assets outputs) (fun _ => True)
      (changeForInputs change grantors) := by
  intro state hstate
  exact hstate.of_eq rfl rfl rfl

theorem elementInvariant_created : ElementInvariant env tx inputs offset seedNode assets pass
      (Created env.params tx assets outputs) (fun _ => True) where
  mayFail := fun _ _ => trivial
  assets_eq := fun _ hstate => hstate.assets_eq
  same := fun _ _ hsame hstate => hstate.of_same hsame
  element := by
    intro j output e element _ _ _
    refine Preserves.bind (preserves_rejectIf (fun _ _ => trivial) _ _) fun _ => ?_
    refine Preserves.bind (preserves_onlyIf fun _ =>
      modify_created (fun _ => rfl) (fun _ => rfl) fun _ => rfl) fun _ => ?_
    refine Preserves.bind (preserves_onlyIf fun _ =>
      modify_created (fun _ => rfl) (fun _ => rfl) fun _ => rfl) fun _ => ?_
    refine preserves_onlyIf fun _ => ?_
    refine Preserves.bind (preserves_rejectIf (fun _ _ => trivial) _ _) fun _ => ?_
    refine Preserves.bind (preserves_onlyIf fun _ =>
      modify_created (fun _ => rfl) (fun _ => rfl) fun _ => rfl) fun _ => ?_
    refine Preserves.bind Preserves.get fun _ => ?_
    refine Preserves.bind (modify_created (fun _ => rfl) (fun _ => rfl) fun _ => rfl) fun _ => ?_
    exact Preserves.bind (changeForInputs_created _ _) fun _ =>
      preserves_rejectIf (fun _ _ => trivial) _ _

theorem checkCachedScripts_created (script : McScript) : ∀ fuel start,
    Preserves (Created env.params tx assets outputs) (fun _ => True)
      (checkCachedScripts env tx inputs script fuel start) := by
  intro fuel
  induction fuel with
  | zero => exact fun start => Preserves.pure ()
  | succ fuel ih =>
    intro start
    rw [checkCachedScripts]
    split
    · exact Preserves.pure ()
    · exact Preserves.throw (fun _ _ => trivial) _
    next next _ => exact ih next
    next cached next _ =>
      refine Preserves.bind ?_ fun _ => ih next
      refine Preserves.bind (preserves_rejectIf (fun _ _ => trivial) _ _) fun _ => ?_
      refine Preserves.bind (preserves_rejectIf (fun _ _ => trivial) _ _) fun _ => ?_
      exact preserves_onlyIf fun _ => modify_created (fun _ => rfl) (fun _ => rfl) fun _ => rfl

theorem scriptCache_created (script : McScript) :
    Preserves (Created env.params tx assets outputs) (fun _ => True)
      (scriptCache env tx inputs script) :=
  Preserves.bind (preserves_onlyIf fun _ => checkCachedScripts_created script _ _) fun _ =>
    Preserves.pure _

/-- A new entity is only noted where there was none. -/
theorem newEntityElement_created {output : TxOut} (houtput : tx.vout[j]? = some output) :
    Triple (Created env.params tx assets j)
      (newEntityElement env ((McScript.setScript env.params output.scriptPubKey).setElement 0) j)
      (fun _ => Created env.params tx assets (j + 1)) (fun _ => True) := by
  have hread {entity other : McScript.NewEntity}
      (hentity : ((McScript.setScript env.params output.scriptPubKey).setElement 0).getNewEntity
        = .ok entity)
      (hat : NewEntityAt env.params tx j other) : other = entity := by
    obtain ⟨output', houtput', -, -, hother⟩ := hat.output
    rw [houtput] at houtput'
    obtain rfl := Option.some.inj houtput'
    rw [hentity] at hother
    exact (Except.ok.inj hother).symm
  unfold newEntityElement
  split
  next hwrong =>
    refine Triple.pure fun state hstate => hstate.succ fun entity hat => ?_
    obtain ⟨output', houtput', -, -, hother⟩ := hat.output
    rw [houtput] at houtput'
    obtain rfl := Option.some.inj houtput'
    rw [hwrong] at hother
    cases hother
  · exact Triple.throw fun _ _ => trivial
  next entity hentity =>
    have hnote : Triple (Created env.params tx assets j)
        (modify fun state =>
          { state with newEntityType := entity.type, detailsScript := entity.details } : TxM Unit)
        (fun _ state => state.assets = assets ∧ state.newEntityType = entity.type
          ∧ ∀ j' < j, ∀ other, NewEntityAt env.params tx j' other →
            state.newEntityOutput = some j') (fun _ => True) :=
      Triple.modify fun state hstate => ⟨hstate.assets_eq, rfl,
        fun j' hlt other hat => (hstate.noted j' hlt other hat).1⟩
    refine Triple.bind hnote fun _ => Preserves.get_bind fun state hstate => ?_
    obtain ⟨hassets, htype, hnoted⟩ := hstate
    refine rejectIf_bind (fun _ _ => trivial) fun hnone => ?_
    have hfirst : ∀ j' < j, ∀ other, ¬ NewEntityAt env.params tx j' other := by
      intro j' hlt other hat
      rw [hnoted j' hlt other hat] at hnone
      cases hnone
    refine rejectIf_bind (fun _ _ => trivial) fun _ => ?_
    refine rejectIf_bind (fun _ _ => trivial) fun _ => ?_
    rintro now rfl
    by_cases hasset : entity.type ≠ MC_ENT_TYPE_ASSET
    · have hrun : (onlyIf (entity.type ≠ MC_ENT_TYPE_ASSET)
          (modify fun state => { state with newEntityOutput := some j }) : TxM Unit) now
          = .ok () { now with newEntityOutput := some j } := by
        rw [decide_eq_true hasset]
        rfl
      rw [bind_apply, hrun]
      refine ⟨hassets, fun j' hlt other hat => ?_⟩
      rcases Nat.lt_succ_iff_lt_or_eq.mp hlt with hbefore | rfl
      · exact absurd hat (hfirst j' hbefore other)
      rw [hread hentity hat]
      exact ⟨rfl, fun _ => htype⟩
    have hrun : (onlyIf (entity.type ≠ MC_ENT_TYPE_ASSET)
        (modify fun state => { state with newEntityOutput := some j }) : TxM Unit) now
        = .ok () now := by
      rw [decide_eq_false hasset]
      rfl
    rw [bind_apply, hrun]
    refine ⟨hassets, fun j' hlt other hat => ?_⟩
    rcases Nat.lt_succ_iff_lt_or_eq.mp hlt with hbefore | rfl
    · exact absurd hat (hfirst j' hbefore other)
    exact absurd hat.notAsset (hread hentity hat ▸ hasset)

theorem checkOneDrop_created (hdrop : env.params.opDropDetailsScripts = true) {output : TxOut}
    (houtput : tx.vout[j]? = some output) : Triple (Created env.params tx assets j)
      (checkOneDrop env tx inputs (McScript.setScript env.params output.scriptPubKey) j)
      (fun _ => Created env.params tx assets (j + 1)) (fun _ => True) := by
  refine Triple.bind (scriptCache_created _) fun cached => ?_
  unfold createdEntity
  rw [if_pos hdrop]
  exact Triple.bind (newEntityElement_created houtput) fun created =>
    preserves_rejectIf (fun _ _ => trivial) _ _

theorem rememberAdmins_created (script : McScript) :
    Preserves (Created env.params tx assets outputs) (fun _ => True)
      (rememberAdmins env tx inputs script) := by
  unfold rememberAdmins
  split
  · exact Preserves.pure ()
  refine modify_created (fun state => ?_) (fun state => ?_) fun state => ?_ <;>
    (split <;> rfl)

theorem checkMetadata_created (hdrop : env.params.opDropDetailsScripts = true) {output : TxOut}
    (houtput : tx.vout[j]? = some output) : Triple (Created env.params tx assets j)
      (checkMetadata env tx inputs (McScript.setScript env.params output.scriptPubKey) j)
      (fun _ => Created env.params tx assets (j + 1)) (fun _ => True) := by
  refine rejectIf_bind (fun _ _ => trivial) fun _ => ?_
  refine rejectIf_bind (fun _ _ => trivial) fun _ => ?_
  refine rejectIf_bind (fun _ _ => trivial) fun _ => ?_
  refine rejectIf_bind (fun _ _ => trivial) fun _ => ?_
  have hdropped : Triple (Created env.params tx assets j)
      (onlyIf ((McScript.setScript env.params output.scriptPubKey).numElements = 2)
        (checkOneDrop env tx inputs (McScript.setScript env.params output.scriptPubKey) j))
      (fun _ => Created env.params tx assets (j + 1)) (fun _ => True) := by
    unfold onlyIf
    split
    · exact checkOneDrop_created hdrop houtput
    next hother =>
      refine Triple.pure fun state hstate => hstate.succ fun entity hat => ?_
      obtain ⟨output', houtput', -, htwo, -⟩ := hat.output
      rw [houtput] at houtput'
      obtain rfl := Option.some.inj houtput'
      exact hother (decide_eq_true htwo)
  refine Triple.bind hdropped fun _ => ?_
  refine Preserves.bind (preserves_rejectIf (fun _ _ => trivial) _ _) fun _ => ?_
  exact preserves_onlyIf fun _ => rememberAdmins_created _

theorem firstPass_created (hdrop : env.params.opDropDetailsScripts = true) :
    Triple (Created env.params tx assets 0) (runPass env tx inputs offset seedNode 0)
      (fun _ => Created env.params tx assets tx.vout.length) (fun _ => True) := by
  have hloop := @Triple.forM_zipIdx _ _ _ (fun _ => True)
    (fun j => Created env.params tx assets j)
    (fun item => processOutput env tx inputs offset seedNode 0 item.2 item.1) tx.vout 0
    fun j hj => ?_
  · rwa [Nat.zero_add] at hloop
  have houtput : tx.vout[0 + j]? = some tx.vout[j] := by
    rw [Nat.zero_add]
    exact List.getElem?_eq_getElem hj
  unfold processOutput
  dsimp only
  split
  · exact Triple.bind (checkMetadata_created hdrop houtput) fun _ =>
      preserves_onlyIf fun hlast => absurd (of_decide_eq_true hlast).1 (by decide)
  next hpaying =>
    refine (elementInvariant_created.payingOutput houtput).weaken (fun _ hstate => hstate)
      (fun _ state hstate => hstate.succ fun entity hat => ?_) fun _ hstate => hstate
    obtain ⟨output', houtput', hreturn, -⟩ := hat.output
    rw [houtput] at houtput'
    obtain rfl := Option.some.inj houtput'
    exact hpaying hreturn

theorem middlePass_created (hfirst : pass ≠ 0) (hlast : pass ≠ 3) :
    Preserves (Created env.params tx assets outputs) (fun _ => True)
      (runPass env tx inputs offset seedNode pass) :=
  @PassInvariant.runPass _ _ _ _ _ assets _ _ _ {
    elementInvariant_created with
    metadata := fun _ _ _ _ =>
      Preserves.bind (preserves_onlyIf fun hpass => absurd (of_decide_eq_true hpass) hfirst)
        fun _ => preserves_onlyIf fun hpass => absurd (of_decide_eq_true hpass).1 hlast }

theorem setElement_setElement {script : McScript} {first second : ℕ}
    (hsecond : second < script.numElements) :
    (script.setElement first).setElement second = script.setElement second := by
  unfold McScript.numElements at hsecond
  unfold McScript.setElement
  by_cases hfirst : script.elements.length ≤ first
  · rw [if_pos hfirst]
  rw [if_neg hfirst, if_neg (not_le.mpr hsecond), if_neg (not_le.mpr hsecond)]

/-- The update of an asset leaves only the output of the new entity. -/
theorem checkAssetUpdate_created {output : TxOut} {asset : BitVec 128} (hmem : output ∈ tx.vout)
    (hreturn : (McScript.setScript env.params output.scriptPubKey).isOpReturn = true)
    (hthree : (McScript.setScript env.params output.scriptPubKey).numElements = 3)
    (hasset : ((McScript.setScript env.params output.scriptPubKey).setElement 0).getEntity
      = .ok asset) : Preserves (Created env.params tx assets outputs) (fun _ => True)
      (checkAssetUpdate (McScript.setScript env.params output.scriptPubKey)) := by
  unfold checkAssetUpdate
  split
  · exact Preserves.throw (fun _ _ => trivial) _
  next entity hentity =>
    have hwrite : Triple (Created env.params tx assets outputs)
        (modify fun state =>
          { state with newEntityType := entity.type, detailsScript := entity.details } : TxM Unit)
        (fun _ state => state.assets = assets ∧ ∀ j < outputs, ∀ other,
          NewEntityAt env.params tx j other → state.newEntityOutput = some j) (fun _ => True) :=
      Triple.modify fun state hstate => ⟨hstate.assets_eq,
        fun j hlt other hat => (hstate.noted j hlt other hat).1⟩
    refine Triple.bind hwrite fun _ => rejectIf_bind (fun _ _ => trivial) fun hupdate => ?_
    intro state hstate
    by_cases htype : entity.type ≠ MC_ENT_TYPE_ASSET
    · have hrun : (rejectIf (entity.type ≠ MC_ENT_TYPE_ASSET)
          "Metadata script rejected - entity type mismatch in update script" : TxM Unit) state
          = .error "Metadata script rejected - entity type mismatch in update script" state := by
        rw [decide_eq_true htype]
        rfl
      rw [hrun]
      trivial
    have hrun : (rejectIf (entity.type ≠ MC_ENT_TYPE_ASSET)
        "Metadata script rejected - entity type mismatch in update script" : TxM Unit) state
        = .ok () state := by
      rw [decide_eq_false htype]
      rfl
    rw [hrun]
    refine ⟨hstate.1, fun j hlt other hat => ⟨hstate.2 j hlt other hat, fun hnone => ?_⟩⟩
    refine absurd ?_ (hnone output hmem asset)
    refine ⟨hreturn, by omega, ⟨entity, hentity, not_not.mp htype,
      by simpa using hupdate⟩, ?_⟩
    rwa [setElement_setElement (by omega)]

theorem checkEntityMetadata_created {output : TxOut} (hmem : output ∈ tx.vout)
    (hreturn : (McScript.setScript env.params output.scriptPubKey).isOpReturn = true)
    (hthree : (McScript.setScript env.params output.scriptPubKey).numElements = 3) (j : ℕ) :
    Preserves (Created env.params tx assets outputs) (fun _ => True)
      (checkEntityMetadata env inputs offset (McScript.setScript env.params output.scriptPubKey)
        j) := by
  unfold checkEntityMetadata
  split
  · exact Preserves.throw (fun _ _ => trivial) _
  next asset hasset =>
    refine Preserves.bind Preserves.get fun state => ?_
    split
    · exact Preserves.throw (fun _ _ => trivial) _
    next entity _ =>
      have hkey : Preserves (Created env.params tx assets outputs) (fun _ => True)
          (checkItemKey (McScript.setScript env.params output.scriptPubKey)) := by
        unfold checkItemKey
        split
        · exact Preserves.throw (fun _ _ => trivial) _
        · exact Preserves.pure ()
      have hsecond : Preserves (Created env.params tx assets outputs) (fun _ => True)
          (checkSecondElement env inputs offset entity
            (McScript.setScript env.params output.scriptPubKey) j) := by
        unfold checkSecondElement
        split
        · split
          · exact checkAssetUpdate_created hmem hreturn hthree hasset
          split
          · exact hkey
          unfold approveUpgrade
          split
          · exact Preserves.throw (fun _ _ => trivial) _
          refine Preserves.bind Preserves.get fun _ => ?_
          exact Preserves.bind (changeForInputs_created _ _) fun _ =>
            preserves_rejectIf (fun _ _ => trivial) _ _
        split
        · exact Preserves.throw (fun _ _ => trivial) _
        · exact hkey
      exact Preserves.bind hsecond fun _ =>
        Preserves.bind Preserves.get fun _ => preserves_rejectIf (fun _ _ => trivial) _ _

theorem lastPass_created : Preserves (Created env.params tx assets outputs) (fun _ => True)
      (runPass env tx inputs offset seedNode 3) :=
  @PassInvariant.runPass _ _ _ _ _ assets _ _ _ {
    elementInvariant_created with
    metadata := fun j output houtput hreturn =>
      Preserves.bind (preserves_onlyIf fun hpass => absurd (of_decide_eq_true hpass) (by decide))
        fun _ => preserves_onlyIf fun hpass =>
          checkEntityMetadata_created (List.mem_of_getElem? houtput) hreturn
            (of_decide_eq_true hpass).2 j }

/-- When the outputs have been processed every new entity has been noted. -/
theorem processOutputs_created (hdrop : env.params.opDropDetailsScripts = true) :
    Triple (Created env.params tx assets 0) (processOutputs env tx inputs offset seedNode)
      (fun _ => Created env.params tx assets tx.vout.length) (fun _ => True) := by
  refine Triple.bind (firstPass_created hdrop) fun _ => ?_
  refine Preserves.bind (middlePass_created (by decide) (by decide)) fun _ => ?_
  refine Preserves.bind (middlePass_created (by decide) (by decide)) fun _ => ?_
  refine Preserves.bind lastPass_created fun _ => Preserves.bind Preserves.get fun _ => ?_
  split
  · exact Preserves.throw (fun _ _ => trivial) _
  exact Preserves.pure ()

end Amberchain.Transaction
