import Amberchain.Transaction.Accept

/-!
# What the passes do to the permissions

Processing the outputs changes the permission store only through grants and
approvals, so whatever these keep is kept, also by a transaction that is rejected
half way.
-/

namespace Amberchain.Transaction

open Entity Permission Failing

structure GrantInvariant (params : ChainParams) (invariant : Store → Prop) : Prop where
  grant : ∀ store grant, invariant store → invariant (store.setPermission params grant).1
  approve : ∀ store approval, invariant store → invariant (store.setApproval params approval).1

/-- A property of the variables that the outputs keep: it depends on the permissions and the
assets alone, and grants and approvals keep it. -/
structure OutputInvariant (params : ChainParams) (property : TxState → Prop) : Prop where
  others : ∀ state next, next.permissions = state.permissions → next.assets = state.assets →
    property state → property next
  grant : ∀ state grant, property state →
    property { state with permissions := (state.permissions.setPermission params grant).1 }
  approve : ∀ state approval, property state →
    property { state with permissions := (state.permissions.setApproval params approval).1 }

abbrev KeepsStore {α : Type} (invariant : Store → Prop) (program : TxM α) : Prop :=
  Keeps (fun state : TxState => invariant state.permissions) program

variable {env : TxEnv} {tx : Tx} {inputs : Inputs} {offset : ℤ} {seedNode : Option Hash160}
  {invariant : Store → Prop} {property : TxState → Prop}

theorem GrantInvariant.outputs {params : ChainParams} (hgrants : GrantInvariant params invariant) :
    OutputInvariant params fun state => invariant state.permissions where
  others := fun state next hpermissions _ hstate => by rwa [hpermissions]
  grant := fun state grant hstate => hgrants.grant state.permissions grant hstate
  approve := fun state approval hstate => hgrants.approve state.permissions approval hstate

theorem keeps_onlyIf {condition : Bool} {action : TxM Unit}
    (haction : condition = true → Keeps property action) :
    Keeps property (onlyIf condition action) := by
  rw [onlyIf]
  split
  next hcondition => exact haction hcondition
  · exact Keeps.pure ()

theorem keeps_rejectIf {condition : Bool} {reason : String} :
    Keeps property (rejectIf condition reason) :=
  keeps_onlyIf fun _ => Keeps.throw reason

theorem keeps_rejectIf_then {condition : Bool} {reason : String} {α : Type} {rest : TxM α}
    (hrest : Keeps property rest) : Keeps property (rejectIf condition reason >>= fun _ => rest) :=
  Keeps.bind keeps_rejectIf fun _ => hrest

variable {change : TxState → TxState}

theorem keeps_modify (hchange : ∀ state, (change state).permissions = state.permissions) :
    KeepsStore invariant (modify change : TxM Unit) := by
  apply Keeps.modify
  intro state hstate
  rwa [hchange]

theorem anyInput_keeps {change : ℕ → Store → Store × Option McError} : ∀ (grantors : List ℕ),
      (∀ i ∈ grantors, ∀ store, invariant store → invariant (change i store).1) →
      ∀ store, invariant store → invariant (anyInput change grantors store).1 := by
  intro grantors
  induction grantors with
  | nil => exact fun _ store hstore => hstore
  | cons i rest ih =>
    intro hchange store hstore
    obtain ⟨hfirst, hrest⟩ := List.forall_mem_cons.mp hchange
    exact ih hrest _ (hfirst store hstore)

theorem changeForInputs_keeps {change : ℕ → Store → Store × Option McError}
    (hchange : ∀ i state, property state →
      property { state with permissions := (change i state.permissions).1 })
    (grantors : List ℕ) : Keeps property (changeForInputs change grantors) := by
  intro state hstate
  have hinputs : ∀ i ∈ grantors, ∀ store, property { state with permissions := store } →
      property { state with permissions := (change i store).1 } :=
    fun i _ store hstore => hchange i { state with permissions := store } hstore
  exact anyInput_keeps grantors hinputs state.permissions hstate

theorem grantAll_keeps {params : ChainParams} (hgrants : GrantInvariant params invariant) :
    ∀ (grants : List Grant) (store : Store), invariant store →
      invariant (grantAll params grants store).1 := by
  intro grants
  induction grants with
  | nil => exact fun store hstore => hstore
  | cons grant grants ih =>
    intro store hstore
    have hnext := hgrants.grant store grant hstore
    rw [grantAll]
    split
    next next hset =>
      rw [hset] at hnext
      exact ih next hnext
    next next err hset =>
      rwa [hset] at hnext

theorem applyGrants_keeps {params : ChainParams} (hgrants : GrantInvariant params invariant)
    (grants : List Grant) : KeepsStore invariant (applyGrants params grants) := by
  intro state hstate
  exact grantAll_keeps hgrants grants state.permissions hstate

structure SamePermissions (state next : TxState) : Prop where
  permissions : next.permissions = state.permissions
  assets : next.assets = state.assets
  allowedAdmins : next.allowedAdmins = state.allowedAdmins
  allowedActivators : next.allowedActivators = state.allowedActivators

section Metadata

variable (hsame : ∀ state next, SamePermissions state next → property state → property next)

include hsame

theorem keeps_change (hchange : ∀ state, SamePermissions state (change state)) :
    Keeps property (modify change : TxM Unit) :=
  Keeps.modify fun state hstate => hsame state _ (hchange state) hstate

theorem checkCachedScript_keeps (cached : McScript.CachedScript) :
    Keeps property (checkCachedScript env tx inputs cached) := by
  apply keeps_rejectIf_then
  apply keeps_rejectIf_then
  exact keeps_onlyIf fun _ => keeps_change hsame fun _ => ⟨rfl, rfl, rfl, rfl⟩

section

variable (script : McScript)

include script

theorem checkCachedScripts_keeps :
    ∀ fuel start, Keeps property (checkCachedScripts env tx inputs script fuel start) := by
  intro fuel
  induction fuel with
  | zero => exact fun start => Keeps.pure ()
  | succ fuel ih =>
    intro start
    rw [checkCachedScripts]
    split
    · exact Keeps.pure ()
    · exact Keeps.throw _
    next next _ => exact ih next
    next cached next _ =>
      exact Keeps.bind (checkCachedScript_keeps hsame cached) fun _ => ih next

theorem newEntityElement_keeps (j : ℕ) :
    Keeps property (newEntityElement env script j) := by
  rw [newEntityElement]
  split
  · exact Keeps.pure false
  · exact Keeps.throw _
  apply Keeps.bind
  · exact keeps_change hsame fun _ => ⟨rfl, rfl, rfl, rfl⟩
  intro _
  apply Keeps.bind Keeps.get
  intro state
  apply keeps_rejectIf_then
  apply keeps_rejectIf_then
  apply keeps_rejectIf_then
  apply Keeps.bind
  · exact keeps_onlyIf fun _ => keeps_change hsame fun _ => ⟨rfl, rfl, rfl, rfl⟩
  intro _
  exact Keeps.pure true

theorem detailsElement_keeps : Keeps property (detailsElement script) := by
  rw [detailsElement]
  split
  · exact keeps_change hsame fun _ => ⟨rfl, rfl, rfl, rfl⟩
  · exact keeps_change hsame fun _ => ⟨rfl, rfl, rfl, rfl⟩
  exact Keeps.throw _

theorem newEntityElementOld_keeps (j : ℕ) :
    Keeps property (newEntityElementOld env script j) := by
  rw [newEntityElementOld]
  split
  · exact Keeps.pure false
  apply Keeps.bind
  · exact keeps_change hsame fun _ => ⟨rfl, rfl, rfl, rfl⟩
  intro _
  apply Keeps.bind Keeps.get
  intro state
  apply keeps_rejectIf_then
  apply keeps_rejectIf_then
  apply Keeps.bind
  · exact keeps_change hsame fun _ => ⟨rfl, rfl, rfl, rfl⟩
  intro _
  apply Keeps.bind (detailsElement_keeps hsame _)
  intro _
  exact Keeps.pure true

theorem checkOneDrop_keeps (j : ℕ) :
    Keeps property (checkOneDrop env tx inputs script j) := by
  apply Keeps.bind
  · apply Keeps.bind (keeps_onlyIf fun _ => checkCachedScripts_keeps hsame _ _ _)
    intro _
    exact Keeps.pure _
  intro cached
  apply Keeps.bind
  · rw [createdEntity]
    split
    · exact newEntityElement_keeps hsame _ j
    · exact newEntityElementOld_keeps hsame _ j
  intro created
  exact keeps_rejectIf

theorem rememberAdmins_keeps :
    Keeps property (rememberAdmins env tx inputs script) := by
  rw [rememberAdmins]
  split
  · exact Keeps.pure ()
  apply keeps_change hsame
  intro state
  split <;> exact ⟨rfl, rfl, rfl, rfl⟩

theorem checkMetadata_keeps (j : ℕ) :
    Keeps property (checkMetadata env tx inputs script j) := by
  apply keeps_rejectIf_then
  apply keeps_rejectIf_then
  apply keeps_rejectIf_then
  apply keeps_rejectIf_then
  apply Keeps.bind (keeps_onlyIf fun _ => checkOneDrop_keeps hsame script j)
  intro _
  apply keeps_rejectIf_then
  exact keeps_onlyIf fun _ => rememberAdmins_keeps hsame script

end

end Metadata

variable (hkeeps : OutputInvariant env.params property)

include hkeeps

theorem keeps_others (hpermissions : ∀ state, (change state).permissions = state.permissions)
    (hassets : ∀ state, (change state).assets = state.assets) :
    Keeps property (modify change : TxM Unit) :=
  Keeps.modify fun state => hkeeps.others state _ (hpermissions state) (hassets state)

theorem approveUpgrade_keeps (entity : EntityRow) (script : McScript) (j : ℕ) :
    Keeps property (approveUpgrade env inputs offset entity script j) := by
  rw [approveUpgrade]
  split
  · exact Keeps.throw _
  apply Keeps.bind Keeps.get
  intro state
  apply Keeps.bind (changeForInputs_keeps (fun _ state => hkeeps.approve state _) _)
  intro found
  exact keeps_rejectIf

theorem checkAssetUpdate_keeps (script : McScript) : Keeps property (checkAssetUpdate script) := by
  rw [checkAssetUpdate]
  split
  · exact Keeps.throw _
  apply Keeps.bind
  · exact keeps_others hkeeps (fun _ => rfl) fun _ => rfl
  intro _
  apply keeps_rejectIf_then
  exact keeps_rejectIf

omit hkeeps in
theorem checkItemKey_keeps (script : McScript) : Keeps property (checkItemKey script) := by
  rw [checkItemKey]
  split
  · exact Keeps.throw _
  exact Keeps.pure ()

theorem checkSecondElement_keeps (entity : EntityRow) (script : McScript) (j : ℕ) :
    Keeps property (checkSecondElement env inputs offset entity script j) := by
  rw [checkSecondElement]
  split
  · split
    · exact checkAssetUpdate_keeps hkeeps script
    split
    · exact checkItemKey_keeps script
    · exact approveUpgrade_keeps hkeeps entity script j
  split
  · exact Keeps.throw _
  exact checkItemKey_keeps script

theorem checkEntityMetadata_keeps (script : McScript) (j : ℕ) :
    Keeps property (checkEntityMetadata env inputs offset script j) := by
  rw [checkEntityMetadata]
  split
  · exact Keeps.throw _
  apply Keeps.bind Keeps.get
  intro state
  split
  · exact Keeps.throw _
  apply Keeps.bind (checkSecondElement_keeps hkeeps _ script j)
  intro _
  apply Keeps.bind Keeps.get
  intro state
  exact keeps_rejectIf

theorem grantElement_keeps (found : Destinations) (entity : EntityRow) (type : PermType)
    (element : McScript.PermissionElement) (j e : ℕ) : Keeps property
      (grantElement env inputs offset seedNode found entity type element j e) := by
  apply keeps_rejectIf_then
  apply Keeps.bind
  · exact keeps_onlyIf fun _ => keeps_others hkeeps (fun _ => rfl) fun _ => rfl
  intro _
  apply Keeps.bind Keeps.get
  intro state
  apply Keeps.bind
  · exact keeps_others hkeeps (fun _ => rfl) fun _ => rfl
  intro _
  apply Keeps.bind (changeForInputs_keeps (fun _ state => hkeeps.grant state _) _)
  intro granted
  exact keeps_rejectIf

theorem permissionElement_keeps (pass : ℕ)
    (found : Destinations) (entity : EntityRow) (element : McScript.PermissionElement) (j e : ℕ) :
    Keeps property
      (permissionElement env inputs offset seedNode pass found entity element j e) := by
  apply keeps_rejectIf_then
  apply Keeps.bind
  · exact keeps_onlyIf fun _ => keeps_others hkeeps (fun _ => rfl) fun _ => rfl
  intro _
  apply Keeps.bind
  · exact keeps_onlyIf fun _ => keeps_others hkeeps (fun _ => rfl) fun _ => rfl
  intro _
  exact keeps_onlyIf fun _ => grantElement_keeps hkeeps found entity _ element j e

theorem outputElement_keeps (pass : ℕ)
    (found : Destinations) (script : McScript) (j : ℕ) (scan : ElementScan) (e : ℕ) : Keeps property
      (outputElement env inputs offset seedNode pass found script j scan e) := by
  rw [outputElement]
  split
  · apply keeps_rejectIf_then
    apply Keeps.bind Keeps.get
    intro state
    split
    · exact Keeps.throw _
    · exact Keeps.pure _
  split
  · apply Keeps.bind (permissionElement_keeps hkeeps pass found _ _ j e)
    intro _
    exact Keeps.pure _
  apply keeps_rejectIf_then
  exact Keeps.pure _

omit hkeeps in
theorem checkDestination_keeps (found : Destinations) :
    Keeps property (checkDestination env found) := by
  apply keeps_rejectIf_then
  apply keeps_rejectIf_then
  exact keeps_rejectIf

theorem addOutputQuantities_keeps (script : McScript) :
    Keeps property (addOutputQuantities env script) := by
  apply Keeps.bind Keeps.get
  intro state
  split
  · exact Keeps.throw _
  exact keeps_others hkeeps (fun _ => rfl) fun _ => rfl

omit hkeeps in
theorem checkReceive_keeps (found : Destinations) (script : McScript) (output : TxOut) :
    Keeps property (checkReceive env tx offset found script output) := by
  apply keeps_rejectIf_then
  apply keeps_rejectIf_then
  apply Keeps.bind Keeps.get
  intro state
  exact keeps_rejectIf

theorem payingOutput_keeps (pass : ℕ) (script : McScript) (output : TxOut) (j : ℕ) : Keeps property
      (payingOutput env tx inputs offset seedNode pass script output j) := by
  apply Keeps.bind (keeps_onlyIf fun _ => checkDestination_keeps _)
  intro _
  apply Keeps.bind
  · exact Keeps.foldlM (fun scan e _ => outputElement_keeps hkeeps pass _ script j scan e) _
  intro scan
  apply keeps_rejectIf_then
  apply Keeps.bind (keeps_onlyIf fun _ => addOutputQuantities_keeps hkeeps script)
  intro _
  exact keeps_onlyIf fun _ => checkReceive_keeps _ script output

theorem runPass_keeps (pass : ℕ) : Keeps property (runPass env tx inputs offset seedNode pass) := by
  apply Keeps.forM
  rintro ⟨output, j⟩ _
  dsimp only
  rw [processOutput]
  split
  · apply Keeps.bind
      (keeps_onlyIf fun _ => checkMetadata_keeps (fun state next hsame => hkeeps.others state next
        hsame.permissions hsame.assets) _ j)
    intro _
    exact keeps_onlyIf fun _ => checkEntityMetadata_keeps hkeeps _ j
  exact payingOutput_keeps hkeeps pass _ output j

theorem processOutputs_keeps : Keeps property (processOutputs env tx inputs offset seedNode) := by
  apply Keeps.bind (runPass_keeps hkeeps 0)
  intro _
  apply Keeps.bind (runPass_keeps hkeeps 1)
  intro _
  apply Keeps.bind (runPass_keeps hkeeps 2)
  intro _
  apply Keeps.bind (runPass_keeps hkeeps 3)
  intro _
  apply Keeps.bind Keeps.get
  intro state
  split
  · exact Keeps.throw _
  exact Keeps.pure ()

end Amberchain.Transaction
