import Amberchain.Interpreter.Unspendable
import Amberchain.Storage.Coins

/-!
# Pruned scripts

`IsUnspendable` is meant to tell scripts that fail whatever the stack is.  It is true of
every script with `OP_RETURN`, also where `OP_RETURN` is in a branch that need not be
taken.
-/

namespace Amberchain.Interpreter

open Folding (bind_eq_ok)
open Miner (isUnspendable)
open Script (HasOps)

variable {env : EvalEnv} {flags : VerifyFlags}

local instance lawfulOpcode : LawfulBEq Byte := inferInstance

/-- Whichever branches are taken, an `OP_RETURN` is executed, or an operation is met that
fails even where nothing is executed, or the conditions are not balanced. -/
def alwaysStops : List Bool → List Byte → Bool
  | exec, [] => exec ≠ []
  | exec, opcode :: rest =>
    if opcode ∈ disabledOpcodes then true
    else if opcode = OP_IF ∨ opcode = OP_NOTIF then
      if exec.all id then alwaysStops (true :: exec) rest && alwaysStops (false :: exec) rest
      else alwaysStops (false :: exec) rest
    else if opcode = OP_ELSE then
      match exec with
      | [] => true
      | value :: outer => alwaysStops ((!value) :: outer) rest
    else if opcode = OP_ENDIF then
      match exec with
      | [] => true
      | _ :: outer => alwaysStops outer rest
    else if inRange OP_IF OP_ENDIF opcode then true
    else if opcode = OP_RETURN ∧ exec.all id then true
    else alwaysStops exec rest

/-- A script that is too long, that is not read to its end, or that stops on every way
through its conditions. -/
def Blocked (script : Bytes) : Prop :=
  10000 < script.length ∨
    ∀ ops, HasOps script ops → alwaysStops [] (ops.map ScriptOp.opcode) = true

def NeverSucceeds (script : Bytes) : Prop :=
  ∀ (env : EvalEnv) (flags : VerifyFlags) (stack : List Bytes),
    ∃ err, evalScript env flags stack script = .error err

variable {machine next : Machine}

theorem checkSigOp_exec {verify : Bool}
    (hop : checkSigOp env flags verify machine = .ok next) : next.exec = machine.exec := by
  obtain ⟨_, _, _, _, _, _, rfl, _⟩ := checkSigOp_spec hop
  rfl

theorem checkMultisigOp_exec {verify : Bool}
    (hop : checkMultisigOp env flags verify machine = .ok next) : next.exec = machine.exec := by
  obtain ⟨_, _, _, _, rfl, _⟩ := checkMultisigOp_spec hop
  rfl

theorem execute_opReturn {op : ScriptOp} {machine : Machine} (hreturn : op.opcode = OP_RETURN)
    (hrunning : machine.exec.all id = true) : execute env flags op machine = .error .opReturn := by
  unfold execute
  rw [hreturn, hrunning]
  rfl

/-- What is not a condition leaves the conditions. -/
theorem execute_exec {op : ScriptOp} (hexecute : execute env flags op machine = .ok next) :
    inRange OP_IF OP_ENDIF op.opcode = true ∧
        conditionOp op.opcode (machine.exec.all id) machine = .ok next ∨
      inRange OP_IF OP_ENDIF op.opcode = false ∧ next.exec = machine.exec ∧
        ¬ (op.opcode = OP_RETURN ∧ machine.exec.all id = true) := by
  have hreturn : ¬ (op.opcode = OP_RETURN ∧ machine.exec.all id = true) := by
    rintro ⟨hopcode, hrunning⟩
    rw [execute_opReturn hopcode hrunning] at hexecute
    cases hexecute
  unfold execute at hexecute
  dsimp only at hexecute
  split at hexecute
  next hpush =>
    have hrange : inRange OP_IF OP_ENDIF op.opcode = false := by
      refine decide_eq_false fun hboth => ?_
      exact absurd (BitVec.le_trans hboth.1 hpush.2) (by decide)
    split_ifs at hexecute
    cases hexecute
    exact .inr ⟨hrange, rfl, hreturn⟩
  split at hexecute
  next hrange => exact .inl ⟨hrange, hexecute⟩
  next hrange =>
    refine .inr ⟨Bool.not_eq_true _ ▸ hrange, ?_, hreturn⟩
    split at hexecute
    · cases hexecute
      rfl
    split at hexecute
    · cases hexecute
      rfl
    split at hexecute
    · exact checkSigOp_exec hexecute
    split at hexecute
    · exact checkMultisigOp_exec hexecute
    cases hstack : stackOp env.hashes flags op.opcode machine.stack with
    | error err =>
      rw [hstack] at hexecute
      cases hexecute
    | ok stack =>
      rw [hstack] at hexecute
      cases hexecute
      rfl

variable {opcode : Byte}

theorem conditionOp_alwaysStops {opcodes : List Byte}
    (hcondition : conditionOp opcode (machine.exec.all id) machine = .ok next)
    (hnext : alwaysStops next.exec opcodes = false) :
    (if opcode = OP_IF ∨ opcode = OP_NOTIF then
      if machine.exec.all id then
        alwaysStops (true :: machine.exec) opcodes && alwaysStops (false :: machine.exec) opcodes
      else alwaysStops (false :: machine.exec) opcodes
    else if opcode = OP_ELSE then
      match machine.exec with
      | [] => true
      | value :: outer => alwaysStops ((!value) :: outer) opcodes
    else if opcode = OP_ENDIF then
      match machine.exec with
      | [] => true
      | _ :: outer => alwaysStops outer opcodes
    else if inRange OP_IF OP_ENDIF opcode then true
    else if opcode = OP_RETURN ∧ machine.exec.all id then true
    else alwaysStops machine.exec opcodes) = false := by
  unfold conditionOp at hcondition
  split at hcondition
  next hif =>
    rw [if_pos hif]
    split at hcondition
    next hrunning =>
      rw [if_pos hrunning]
      split at hcondition
      next x rest hmain =>
        cases hcondition
        generalize (if opcode = OP_NOTIF then !castToBool x else castToBool x) = value at hnext
        cases value with
        | true => exact Bool.and_eq_false_iff.mpr (.inl hnext)
        | false => exact Bool.and_eq_false_iff.mpr (.inr hnext)
      · cases hcondition
    next hrunning =>
      cases hcondition
      rw [if_neg hrunning]
      exact hnext
  next hif =>
    rw [if_neg hif]
    split at hcondition
    next helse =>
      rw [if_pos helse]
      split at hcondition
      next value outer hexec =>
        cases hcondition
        rw [hexec]
        exact hnext
      · cases hcondition
    next helse =>
      rw [if_neg helse]
      split at hcondition
      next hendif =>
        rw [if_pos hendif]
        split at hcondition
        next value outer hexec =>
          cases hcondition
          rw [hexec]
          exact hnext
        · cases hcondition
      · cases hcondition

/-- An evaluation that closes every condition is a way that does not stop. -/
theorem evalOps_alwaysStops {ops : List ScriptOp} {machine final : Machine}
    (heval : evalOps env flags ops machine = .ok final) (hend : final.exec = []) :
    alwaysStops machine.exec (ops.map ScriptOp.opcode) = false := by
  induction ops generalizing machine with
  | nil =>
    cases heval
    rw [hend]
    rfl
  | cons op ops ih =>
    obtain ⟨next, hround, hrest⟩ := evalOps_cons_eq_ok.mp heval
    have hnext := ih hrest
    have hdisabled : op.opcode ∉ disabledOpcodes := by
      intro hmem
      obtain ⟨checked, _, hround⟩ := bind_eq_ok.mp hround
      obtain ⟨ready, _, hround⟩ := bind_eq_ok.mp hround
      rw [if_pos hmem] at hround
      cases hround
    obtain ⟨ready, halike, hexecute⟩ := evalRound_execute hround
    rw [List.map_cons, alwaysStops.eq_def, ← halike.exec]
    dsimp only
    rw [if_neg hdisabled]
    rcases execute_exec hexecute with ⟨hrange, hcondition⟩ | ⟨hrange, hexec, hreturn⟩
    · exact conditionOp_alwaysStops hcondition hnext
    have hne : ∀ opcode, inRange OP_IF OP_ENDIF opcode = true → op.opcode ≠ opcode := by
      rintro opcode hinside rfl
      rw [hrange] at hinside
      cases hinside
    rw [if_neg (not_or.mpr ⟨hne _ rfl, hne _ rfl⟩), if_neg (hne _ rfl), if_neg (hne _ rfl), hrange,
      if_neg hreturn, ← hexec]
    exact hnext

variable {script : Bytes}

theorem neverSucceeds_of_blocked (hblocked : Blocked script) : NeverSucceeds script := by
  intro env flags stack
  cases heval : evalScript env flags stack script with
  | error err => exact ⟨err, rfl⟩
  | ok result =>
    obtain ⟨ops, final, hops, hrounds, hend, _⟩ := evalScript_eq_ok heval
    rcases hblocked with hlong | hstops
    · unfold evalScript at heval
      rw [if_pos hlong] at heval
      cases heval
    have hfree := evalOps_alwaysStops hrounds hend
    rw [show (Machine.start script stack).exec = [] from rfl, hstops ops hops] at hfree
    cases hfree

def conditionOpcodes : List Byte :=
  [OP_IF, OP_NOTIF, OP_ELSE, OP_ENDIF, OP_RETURN, OP_NOP]

theorem getOp_plain (hplain : OP_PUSHDATA4 < opcode) (rest : Bytes) :
    getOp (opcode :: rest) = some ⟨opcode, [], rest⟩ := by
  rw [getOp, Script.pushSize_plain hplain]
  rfl

theorem conditionOpcodes_spec (hmem : opcode ∈ conditionOpcodes) :
    OP_16 < opcode ∧ opcode ∉ disabledOpcodes := by
  revert opcode
  decide

/-- The checks around an operation pass on a small stack. -/
theorem evalRound_plain {rest : Bytes}
    (hmem : opcode ∈ conditionOpcodes) (hlong : machine.longElement = false)
    (hcount : machine.opCount < 201)
    (hexecute : execute env flags ⟨opcode, [], rest⟩ { machine with opCount := machine.opCount + 1 } =
      .ok next) (hstack : next.stack.main.length + next.stack.alt.length ≤ 1000) :
    evalRound env flags ⟨opcode, [], rest⟩ machine = .ok next := by
  obtain ⟨hcounted, hdisabled⟩ := conditionOpcodes_spec hmem
  have hsize : checkElementSize env ⟨opcode, [], rest⟩ machine = .ok machine := by
    unfold checkElementSize
    rw [if_neg fun hlong' => by rw [hlong] at hlong'; exact absurd hlong'.1 Bool.false_ne_true,
      if_pos (.inr (show ([] : Bytes).length ≤ _ from Nat.zero_le _)), ← hlong]
  have hcountOp : countOp ⟨opcode, [], rest⟩ machine =
      .ok { machine with opCount := machine.opCount + 1 } := by
    unfold countOp
    rw [if_neg (not_not.mpr hcounted), if_neg (by omega)]
  unfold evalRound
  rw [hsize]
  change (countOp _ machine >>= _) = _
  rw [hcountOp]
  change (if opcode ∈ disabledOpcodes then _ else _) = _
  rw [if_neg hdisabled, hexecute]
  change (if 1000 < _ then _ else _) = _
  rw [if_neg (Nat.not_lt.mpr hstack)]
  rfl

/-- The element that makes `OP_IF` or `OP_NOTIF` take a branch. -/
def elementFor (opcode : Byte) (value : Bool) : Bytes :=
  vchOf (if opcode = OP_NOTIF then !value else value)

theorem castToBool_elementFor (opcode : Byte) (value : Bool) :
    (if opcode = OP_NOTIF then !castToBool (elementFor opcode value)
      else castToBool (elementFor opcode value)) = value := by
  unfold elementFor
  have hcast : ∀ value, castToBool (vchOf value) = value := by decide
  rw [hcast]
  split
  · exact Bool.not_not value
  rfl

/-- An operation leads from conditions and a stack to others. -/
def Takes (opcode : Byte) (exec : List Bool) (stack : List Bytes) (exec' : List Bool)
    (stack' : List Bytes) : Prop :=
  ∀ (env : EvalEnv) (flags : VerifyFlags) (rest : Bytes) (machine : Machine),
    machine.exec = exec → machine.stack = ⟨stack, []⟩ →
    execute env flags ⟨opcode, [], rest⟩ machine =
      .ok { machine with exec := exec', stack := ⟨stack', []⟩ }

theorem takes_condition {exec exec' : List Bool} {stack stack' : List Bytes}
    (hrange : inRange OP_IF OP_ENDIF opcode = true)
    (hcondition : ∀ machine : Machine, machine.exec = exec → machine.stack = ⟨stack, []⟩ →
      conditionOp opcode (exec.all id) machine =
        .ok { machine with exec := exec', stack := ⟨stack', []⟩ }) :
    Takes opcode exec stack exec' stack' := by
  intro env flags rest machine hexec hstack
  have hpush : ¬ opcode ≤ OP_PUSHDATA4 := by
    intro hpush
    have hboth := of_decide_eq_true hrange
    exact absurd (BitVec.le_trans hboth.1 hpush) (by decide)
  unfold execute
  rw [if_neg fun hboth => hpush hboth.2, if_pos hrange, hexec]
  exact hcondition machine hexec hstack

/-- What is no condition does nothing, or stops. -/
theorem execute_noCondition {rest : Bytes} {machine : Machine}
    (hmem : opcode ∈ conditionOpcodes) (hrange : inRange OP_IF OP_ENDIF opcode = false)
    (hreturn : ¬ (opcode = OP_RETURN ∧ machine.exec.all id = true)) :
    execute env flags ⟨opcode, [], rest⟩ machine = .ok machine := by
  have hcases : opcode = OP_RETURN ∨ opcode = OP_NOP := by
    unfold conditionOpcodes at hmem
    simp only [List.mem_cons, List.not_mem_nil, or_false] at hmem
    rcases hmem with rfl | rfl | rfl | rfl | hreturn | hnop
    · cases hrange
    · cases hrange
    · cases hrange
    · cases hrange
    · exact .inl hreturn
    · exact .inr hnop
  have hpush : ¬ opcode ≤ OP_PUSHDATA4 := by
    rcases hcases with rfl | rfl
    · decide
    · decide
  unfold execute
  rw [if_neg fun hboth => hpush hboth.2, hrange, if_neg Bool.false_ne_true]
  by_cases hrunning : machine.exec.all id = true
  · have hnop := hcases.resolve_left fun hopcode => hreturn ⟨hopcode, hrunning⟩
    rw [if_neg (not_not.mpr hrunning), hnop]
    rfl
  rw [if_pos hrunning]

/-- An operation that does not stop goes on with some conditions, from a stack that is at most
one element higher than what it leaves. -/
theorem exists_takes {exec : List Bool}
    (hmem : opcode ∈ conditionOpcodes) (hfree : alwaysStops exec (opcode :: script) = false) :
    ∃ exec', alwaysStops exec' script = false ∧ ∀ stack', ∃ stack,
      stack.length ≤ stack'.length + 1 ∧ Takes opcode exec stack exec' stack' := by
  obtain ⟨-, hdisabled⟩ := conditionOpcodes_spec hmem
  rw [alwaysStops.eq_def] at hfree
  dsimp only at hfree
  rw [if_neg hdisabled] at hfree
  split at hfree
  next hif =>
    have hrange : inRange OP_IF OP_ENDIF opcode = true := by
      rcases hif with rfl | rfl
      · rfl
      · rfl
    split at hfree
    next hrunning =>
      obtain ⟨value, hvalue⟩ : ∃ value, alwaysStops (value :: exec) script = false := by
        rcases Bool.and_eq_false_iff.mp hfree with htrue | hfalse
        · exact ⟨true, htrue⟩
        · exact ⟨false, hfalse⟩
      refine ⟨value :: exec, hvalue, fun stack' => ⟨elementFor opcode value :: stack',
        Nat.le_refl _, takes_condition hrange fun machine hexec hstack => ?_⟩⟩
      unfold conditionOp
      rw [if_pos hif, if_pos hrunning, hstack]
      dsimp only
      rw [castToBool_elementFor, hexec]
    next hrunning =>
      refine ⟨false :: exec, hfree, fun stack' => ⟨stack', Nat.le_succ _,
        takes_condition hrange fun machine hexec hstack => ?_⟩⟩
      unfold conditionOp
      rw [if_pos hif, if_neg hrunning, hexec, ← hstack]
  next hif =>
    split at hfree
    next helse =>
      cases exec with
      | nil => cases hfree
      | cons value outer =>
        refine ⟨(!value) :: outer, hfree, fun stack' => ⟨stack', Nat.le_succ _,
          takes_condition (by rw [helse]; rfl) fun machine hexec hstack => ?_⟩⟩
        unfold conditionOp
        rw [if_neg hif, if_pos helse, hexec, ← hstack]
    next helse =>
      split at hfree
      next hendif =>
        cases exec with
        | nil => cases hfree
        | cons value outer =>
          refine ⟨outer, hfree, fun stack' => ⟨stack', Nat.le_succ _,
            takes_condition (by rw [hendif]; rfl) fun machine hexec hstack => ?_⟩⟩
          unfold conditionOp
          rw [if_neg hif, if_neg helse, if_pos hendif, hexec, ← hstack]
      next hendif =>
        split at hfree
        next => cases hfree
        next hrange =>
          split at hfree
          next => cases hfree
          next hreturn =>
            refine ⟨exec, hfree, fun stack' => ⟨stack', Nat.le_succ _,
              fun env flags rest machine hexec hstack => ?_⟩⟩
            rw [← hexec, ← hstack]
            rw [← hexec] at hreturn
            exact execute_noCondition hmem (Bool.not_eq_true _ ▸ hrange) hreturn

/-- A way that does not stop is taken on some stack. -/
theorem evalFrom_of_alwaysStops {exec : List Bool}
    (hopcodes : ∀ opcode ∈ script, opcode ∈ conditionOpcodes)
    (hfree : alwaysStops exec script = false) :
    ∃ stack : List Bytes, stack.length ≤ script.length ∧ ∀ (env : EvalEnv) (flags : VerifyFlags)
      (machine : Machine), machine.exec = exec → machine.stack = ⟨stack, []⟩ →
      machine.longElement = false → machine.opCount + script.length ≤ 201 →
      ∃ final, evalFrom env flags script.length script machine = .ok final ∧ final.exec = [] := by
  induction script generalizing exec with
  | nil =>
    refine ⟨[], Nat.le_refl _, fun env flags machine hexec _ _ _ => ⟨machine, rfl, ?_⟩⟩
    rw [hexec]
    simpa [alwaysStops] using hfree
  | cons opcode script ih =>
    obtain ⟨hmem, hrest⟩ := List.forall_mem_cons.mp hopcodes
    obtain ⟨exec', hnext, htakes⟩ := exists_takes hmem hfree
    obtain ⟨stack', hlength, hrun⟩ := ih hrest hnext
    obtain ⟨stack, hheight, htake⟩ := htakes stack'
    refine ⟨stack, Nat.le_trans hheight (Nat.succ_le_succ hlength),
      fun env flags machine hexec hstack hlong hcount => ?_⟩
    rw [List.length_cons] at hcount
    have hround : evalRound env flags ⟨opcode, [], script⟩ machine =
        .ok { machine with
          opCount := machine.opCount + 1, exec := exec', stack := ⟨stack', []⟩ } :=
      evalRound_plain hmem hlong (by omega) (htake env flags script _ hexec hstack)
        (by
          change stack'.length + 0 ≤ 1000
          omega)
    obtain ⟨final, heval, hend⟩ := hrun env flags { machine with
      opCount := machine.opCount + 1, exec := exec', stack := ⟨stack', []⟩ } rfl rfl hlong
      (by dsimp only; omega)
    refine ⟨final, ?_, hend⟩
    rw [List.length_cons, evalFrom, getOp_plain (BitVec.lt_trans (by decide) (conditionOpcodes_spec hmem).1)]
    dsimp only
    rw [hround]
    exact heval

theorem hasOps_conditions {script : Bytes}
    (hopcodes : ∀ opcode ∈ script, opcode ∈ conditionOpcodes) :
    ∃ ops, HasOps script ops ∧ ops.map ScriptOp.opcode = script := by
  induction script with
  | nil => exact ⟨[], .nil, rfl⟩
  | cons opcode script ih =>
    obtain ⟨hmem, hrest⟩ := List.forall_mem_cons.mp hopcodes
    obtain ⟨ops, hops, hmap⟩ := ih hrest
    refine ⟨⟨opcode, [], script⟩ :: ops, .cons (getOp_plain (BitVec.lt_trans (by decide)
      (conditionOpcodes_spec hmem).1) _) hops, ?_⟩
    rw [List.map_cons, hmap]

/-- A script of conditions fails on every stack only when it is blocked. -/
theorem blocked_of_neverSucceeds
    (hopcodes : ∀ opcode ∈ script, opcode ∈ conditionOpcodes) (hlength : script.length ≤ 201)
    {env : EvalEnv} {flags : VerifyFlags}
    (hfails : ∀ stack, ∃ err, evalScript env flags stack script = .error err) : Blocked script := by
  refine .inr fun ops hops => ?_
  obtain ⟨other, hother, hmap⟩ := hasOps_conditions hopcodes
  rw [hops.unique hother, hmap, ← Bool.not_eq_false]
  intro hfree
  obtain ⟨stack, _, hrun⟩ := evalFrom_of_alwaysStops hopcodes hfree
  obtain ⟨final, heval, hend⟩ := hrun env flags (Machine.start script stack) rfl rfl rfl
    (by
      change 0 + script.length ≤ 201
      omega)
  obtain ⟨err, herr⟩ := hfails stack
  unfold evalScript at herr
  rw [if_neg (by omega), heval] at herr
  change (if final.exec ≠ [] then _ else _) = _ at herr
  rw [if_neg (not_not.mpr hend)] at herr
  cases herr

def plainEnv : EvalEnv where
  params := .defaults
  maxScriptElementSize := 520
  hashes := ⟨fun _ => 0, fun _ => 0, fun _ => 0, fun _ => 0, fun _ => 0⟩
  checkLowS := fun _ => false
  checkSig := fun _ _ _ => false
  canSend := fun _ => false

/-- An unspendable script fails on every stack if it is blocked; of the scripts of conditions
only these do.  Both readers see the same `OP_RETURN`. -/
theorem unspendable_neverSucceeds (script : Bytes) :
    ((isUnspendable script = true → Blocked script) →
      isUnspendable script = true → NeverSucceeds script) ∧
    ((∀ opcode ∈ script, opcode ∈ conditionOpcodes) → script.length ≤ 201 →
      ((isUnspendable script = true → NeverSucceeds script) ↔
        (isUnspendable script = true → Blocked script))) ∧
    ∀ ops, HasOps script ops → script.length ≤ 10000 →
      (isUnspendable script = true ↔ ∃ op ∈ ops, op.opcode = OP_RETURN) := by
  refine ⟨fun hblocked hunspendable => neverSucceeds_of_blocked (hblocked hunspendable),
    fun hopcodes hlength => ?_, fun ops hops hlength => isUnspendable_iff hops (by omega)⟩
  constructor
  · intro hfails hunspendable
    exact blocked_of_neverSucceeds hopcodes hlength
      (hfails hunspendable plainEnv VerifyFlags.mandatory)
  exact fun hblocked hunspendable => neverSucceeds_of_blocked (hblocked hunspendable)

/-- `OP_RETURN` behind an element, and in both branches of a condition. -/
theorem unspendable_neverSucceeds_drop :
    NeverSucceeds [0x01, 0x07, OP_DROP, OP_RETURN, 0x01, 0x05] ∧
      NeverSucceeds [OP_IF, OP_RETURN, OP_ELSE, OP_RETURN, OP_ENDIF] := by
  constructor
  · refine (unspendable_neverSucceeds _).1 (fun _ => .inr fun ops hops => ?_) (by decide)
    have hread : HasOps [0x01, 0x07, OP_DROP, OP_RETURN, 0x01, 0x05]
        [⟨0x01, [0x07], [OP_DROP, OP_RETURN, 0x01, 0x05]⟩, ⟨OP_DROP, [], [OP_RETURN, 0x01, 0x05]⟩,
          ⟨OP_RETURN, [], [0x01, 0x05]⟩, ⟨0x01, [0x05], []⟩] :=
      .cons rfl (.cons rfl (.cons rfl (.cons rfl .nil)))
    rw [hops.unique hread]
    decide
  refine (unspendable_neverSucceeds _).1 (fun _ => .inr fun ops hops => ?_) (by decide)
  obtain ⟨other, hother, hmap⟩ := @hasOps_conditions
    [OP_IF, OP_RETURN, OP_ELSE, OP_RETURN, OP_ENDIF] (by decide)
  rw [hops.unique hother, hmap]
  decide

/-- `OP_0 OP_IF OP_RETURN OP_ENDIF OP_1`, which the database drops, can be spent. -/
theorem unspendable_succeeds : isUnspendable [0x00, OP_IF, OP_RETURN, OP_ENDIF, OP_1] = true ∧
      evalScript plainEnv VerifyFlags.mandatory [] [0x00, OP_IF, OP_RETURN, OP_ENDIF, OP_1] =
        .ok ⟨[[1]], []⟩ ∧
      (Storage.Coins.clearUnspendable ⟨false, [⟨50, [0x00, OP_IF, OP_RETURN, OP_ENDIF, OP_1]⟩], 7, 1⟩
        isUnspendable).isAvailable 0 = false := by
  refine ⟨by decide, by decide +kernel, by decide⟩

end Amberchain.Interpreter
