import Amberchain.Transaction.Preserve

/-!
# Invariants of the passes

What a pass over the outputs keeps, from what it does at a permission element and at an
`OP_RETURN` output.
-/

namespace Amberchain.Transaction

open Entity Permission Failing

variable {env : TxEnv} {tx : Tx} {inputs : Inputs} {offset : ℤ} {seedNode : Option Hash160}

def elementEntity (assets : AssetDB) (script : McScript) : ℕ → EntityRow
  | 0 => EntityRow.zero
  | e + 1 =>
    match (script.setElement e).getEntity with
    | .ok shortTxid => (assets.findEntityByShortTxID shortTxid).getD EntityRow.zero
    | .error _ =>
      match (script.setElement e).getPermission with
      | .ok _ => EntityRow.zero
      | .error _ => elementEntity assets script e

structure SameDecisions (state next : TxState) : Prop extends SamePermissions state next where
  hadAdminPermission : next.hadAdminPermission = state.hadAdminPermission
  newEntityOutput : next.newEntityOutput = state.newEntityOutput
  newEntityType : next.newEntityType = state.newEntityType

section Steps

variable {invariant failed : TxState → Prop}

theorem preserves_onlyIf {condition : Bool} {action : TxM Unit}
    (haction : condition = true → Preserves invariant failed action) :
    Preserves invariant failed (onlyIf condition action) := by
  unfold onlyIf
  split
  next hcondition => exact haction hcondition
  · exact Preserves.pure ()

theorem preserves_rejectIf (hfailed : ∀ state, invariant state → failed state) (condition : Bool)
    (reason : String) : Preserves invariant failed (rejectIf condition reason) :=
  preserves_onlyIf fun _ => Preserves.throw hfailed reason

theorem rejectIf_bind {α : Type} {after : α → TxState → Prop} {condition : Bool}
    {reason : String} {rest : Unit → TxM α} (hfailed : ∀ state, invariant state → failed state)
    (hrest : condition = false → Triple invariant (rest ()) after failed) :
    Triple invariant (rejectIf condition reason >>= rest) after failed := by
  intro state hstate
  cases condition with
  | false => exact hrest rfl state hstate
  | true => exact hfailed state hstate

end Steps

/-- What the permission elements of a pass have to keep: the entities stay as they are, and
a permission element keeps the invariant. -/
structure ElementInvariant (env : TxEnv) (tx : Tx) (inputs : Inputs) (offset : ℤ)
    (seedNode : Option Hash160) (assets : AssetDB) (pass : ℕ)
    (invariant failed : TxState → Prop) : Prop where
  mayFail : ∀ state, invariant state → failed state
  assets_eq : ∀ state, invariant state → state.assets = assets
  same : ∀ state next, SameDecisions state next → invariant state → invariant next
  element : ∀ (j : ℕ) (output : TxOut) (e : ℕ) (element : McScript.PermissionElement),
    tx.vout[j]? = some output →
    e < (McScript.setScript env.params output.scriptPubKey).numElements →
    ((McScript.setScript env.params output.scriptPubKey).setElement e).getPermission
      = .ok element →
    Preserves invariant failed
      (permissionElement env inputs offset seedNode pass
        (Script.extractDestinations env.script env.params output.scriptPubKey)
        (elementEntity assets (McScript.setScript env.params output.scriptPubKey) e) element j e)

/-- What one pass has to keep: the same, also at its `OP_RETURN` outputs. -/
structure PassInvariant (env : TxEnv) (tx : Tx) (inputs : Inputs) (offset : ℤ)
    (seedNode : Option Hash160) (assets : AssetDB) (pass : ℕ)
    (invariant failed : TxState → Prop) : Prop
    extends ElementInvariant env tx inputs offset seedNode assets pass invariant failed where
  metadata : ∀ (j : ℕ) (output : TxOut), tx.vout[j]? = some output →
    (McScript.setScript env.params output.scriptPubKey).isOpReturn = true →
    Preserves invariant failed
      (metadataOutput env tx inputs offset pass (McScript.setScript env.params output.scriptPubKey)
        j)

variable {assets : AssetDB} {pass : ℕ} {invariant failed : TxState → Prop} {j e : ℕ}
  {output : TxOut}

namespace ElementInvariant

variable (hpass : ElementInvariant env tx inputs offset seedNode assets pass invariant failed)

include hpass

theorem outputElement {scan : ElementScan} (houtput : tx.vout[j]? = some output)
    (he : e < (McScript.setScript env.params output.scriptPubKey).numElements) : Triple
      (fun state => invariant state ∧ scan.entity
        = elementEntity assets (McScript.setScript env.params output.scriptPubKey) e)
      (outputElement env inputs offset seedNode pass
        (Script.extractDestinations env.script env.params output.scriptPubKey)
        (McScript.setScript env.params output.scriptPubKey) j scan e)
      (fun next state => invariant state ∧ next.entity
        = elementEntity assets (McScript.setScript env.params output.scriptPubKey) (e + 1))
      failed := by
  suffices hscan : scan.entity
        = elementEntity assets (McScript.setScript env.params output.scriptPubKey) e →
      Triple invariant _ _ failed from fun state hstate => hscan hstate.2 state hstate.1
  intro hentity
  unfold Transaction.outputElement
  dsimp only
  split
  next shortTxid hget =>
    refine rejectIf_bind hpass.mayFail fun _ => Preserves.get_bind fun state hstate => ?_
    cases hfind : state.assets.findEntityByShortTxID shortTxid with
    | none =>
      rintro _ rfl
      exact hpass.mayFail _ hstate
    | some entity =>
      rw [hpass.assets_eq state hstate] at hfind
      rintro _ rfl
      refine ⟨hstate, ?_⟩
      rw [elementEntity, hget]
      dsimp only
      rw [hfind]
      rfl
  next err hget =>
    cases hpermission : ((McScript.setScript env.params output.scriptPubKey).setElement
        e).getPermission with
    | ok element =>
      rw [hentity]
      refine Triple.bind (hpass.element j output e element houtput he hpermission) fun _ => ?_
      refine Triple.pure fun state hstate => ⟨hstate, ?_⟩
      rw [elementEntity, hget, hpermission]
    | error err' =>
      refine rejectIf_bind hpass.mayFail fun _ => ?_
      refine Triple.pure fun state hstate => ⟨hstate, ?_⟩
      rw [elementEntity, hget, hpermission]
      exact hentity

theorem addOutputQuantities (script : McScript) :
    Preserves invariant failed (addOutputQuantities env script) := by
  refine Preserves.get_bind fun state hstate => ?_
  split
  · rintro _ rfl
    exact hpass.mayFail _ hstate
  next amounts _ =>
    rintro now rfl
    exact hpass.same now { now with amountsOut := amounts }
      ⟨⟨rfl, rfl, rfl, rfl⟩, rfl, rfl, rfl⟩ hstate

theorem checkDestination (found : Destinations) :
    Preserves invariant failed (checkDestination env found) :=
  Preserves.bind (preserves_rejectIf hpass.mayFail _ _) fun _ =>
    Preserves.bind (preserves_rejectIf hpass.mayFail _ _) fun _ =>
      preserves_rejectIf hpass.mayFail _ _

theorem checkReceive (found : Destinations) (script : McScript) (output : TxOut) :
    Preserves invariant failed (checkReceive env tx offset found script output) :=
  Preserves.bind (preserves_rejectIf hpass.mayFail _ _) fun _ =>
    Preserves.bind (preserves_rejectIf hpass.mayFail _ _) fun _ =>
      Preserves.bind Preserves.get fun _ => preserves_rejectIf hpass.mayFail _ _

theorem payingOutput (houtput : tx.vout[j]? = some output) : Preserves invariant failed
      (payingOutput env tx inputs offset seedNode pass
        (McScript.setScript env.params output.scriptPubKey) output j) := by
  refine Preserves.bind (preserves_onlyIf fun _ => hpass.checkDestination _) fun _ => ?_
  have hloop := @Triple.foldlM_range _ _ _ failed
    (Transaction.outputElement env inputs offset seedNode pass
      (Script.extractDestinations env.script env.params output.scriptPubKey)
      (McScript.setScript env.params output.scriptPubKey) j)
    (fun e (scan : ElementScan) state => invariant state ∧ scan.entity
      = elementEntity assets (McScript.setScript env.params output.scriptPubKey) e)
    ⟨EntityRow.zero, decide (0 < (McScript.setScript env.params output.scriptPubKey).numElements)⟩
    (McScript.setScript env.params output.scriptPubKey).numElements
    fun e he scan => hpass.outputElement houtput he
  refine Triple.bind (hloop.weaken (fun state hstate => ⟨hstate, rfl⟩)
    (fun _ state hstate => hstate.1) fun _ hstate => hstate) fun scan => ?_
  refine Preserves.bind (preserves_rejectIf hpass.mayFail _ _) fun _ => ?_
  refine Preserves.bind (preserves_onlyIf fun _ => hpass.addOutputQuantities _) fun _ => ?_
  exact preserves_onlyIf fun _ => hpass.checkReceive _ _ _

end ElementInvariant

namespace PassInvariant

variable (hpass : PassInvariant env tx inputs offset seedNode assets pass invariant failed)

include hpass

theorem processOutput (houtput : tx.vout[j]? = some output) :
    Preserves invariant failed (processOutput env tx inputs offset seedNode pass j output) := by
  unfold Transaction.processOutput
  dsimp only
  split
  next hreturn => exact hpass.metadata j output houtput hreturn
  · exact hpass.payingOutput houtput

theorem runPass : Preserves invariant failed (runPass env tx inputs offset seedNode pass) := by
  have hloop := @Triple.forM_zipIdx _ _ _ failed (fun _ => invariant)
    (fun item => Transaction.processOutput env tx inputs offset seedNode pass item.2 item.1)
    tx.vout 0 fun index hindex => hpass.processOutput (by
      rw [Nat.zero_add]
      exact List.getElem?_eq_getElem hindex)
  exact hloop

theorem runPass_output {state final : TxState} (hstate : invariant state)
    (hrun : Transaction.runPass env tx inputs offset seedNode pass state = .ok () final)
    (houtput : tx.vout[j]? = some output) : ∃ before after, invariant before
      ∧ Transaction.processOutput env tx inputs offset seedNode pass j output before
        = .ok () after := by
  have hbody : ∀ item ∈ tx.vout.zipIdx, Preserves invariant failed
      (Transaction.processOutput env tx inputs offset seedNode pass item.2 item.1) :=
    fun item hitem => hpass.processOutput (List.mem_zipIdx_iff_getElem?.mp hitem)
  exact (Preserves.forM_eq_ok hbody hstate hrun).2 (output, j)
    (List.mem_zipIdx_iff_getElem?.mpr houtput)

end PassInvariant

end Amberchain.Transaction
