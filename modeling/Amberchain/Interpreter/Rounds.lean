import Amberchain.Base.Folding
import Amberchain.Interpreter.Eval
import Amberchain.Script.Operations

/-!
# Rounds of the interpreter

What a round that succeeds does, family by family, and an evaluation that succeeds as
rounds over the operations of its script.
-/

namespace Amberchain.Interpreter

open Folding (bind_eq_ok)
open Script (HasOps)

variable {env : EvalEnv} {flags : VerifyFlags}

def evalOps (env : EvalEnv) (flags : VerifyFlags) (ops : List ScriptOp) (machine : Machine) :
    Except ScriptError Machine :=
  ops.foldlM (fun machine op => evalRound env flags op machine) machine

@[simp]
theorem evalOps_nil (machine : Machine) : evalOps env flags [] machine = .ok machine :=
  rfl

variable {op : ScriptOp}

theorem evalOps_cons_eq_ok {ops : List ScriptOp} {machine final : Machine} :
    evalOps env flags (op :: ops) machine = .ok final
      ↔ ∃ next, evalRound env flags op machine = .ok next
        ∧ evalOps env flags ops next = .ok final :=
  Folding.foldlM_cons_eq_ok

theorem evalFrom_eq_ok {fuel : ℕ} {script : Bytes} {machine final : Machine}
    (hfuel : script.length ≤ fuel) (heval : evalFrom env flags fuel script machine = .ok final) :
    ∃ ops, HasOps script ops ∧ evalOps env flags ops machine = .ok final := by
  induction fuel generalizing script machine with
  | zero =>
    have hnil : script = [] := List.eq_nil_of_length_eq_zero (by omega)
    subst hnil
    exact ⟨[], .nil, heval⟩
  | succ fuel ih =>
    rw [evalFrom] at heval
    split_ifs at heval with hnil
    · subst hnil
      exact ⟨[], .nil, heval⟩
    cases hop : getOp script with
    | none => rw [hop] at heval; cases heval
    | some op =>
      rw [hop] at heval
      obtain ⟨next, hround, heval⟩ := bind_eq_ok.mp heval
      have hlt := Script.getOp_rest_lt hop
      obtain ⟨ops, hops, hrest⟩ := ih (by omega) heval
      exact ⟨op :: ops, .cons hop hops, evalOps_cons_eq_ok.mpr ⟨next, hround, hrest⟩⟩

/-- An evaluation that succeeds reads its script to the end and closes every condition. -/
theorem evalScript_eq_ok {stack : List Bytes} {script : Bytes} {result : Evaluated}
    (heval : evalScript env flags stack script = .ok result) : ∃ ops machine, HasOps script ops
      ∧ evalOps env flags ops (Machine.start script stack) = .ok machine
      ∧ machine.exec = [] ∧ result = ⟨machine.stack.main, machine.sigOps⟩ := by
  unfold evalScript at heval
  split_ifs at heval
  obtain ⟨machine, hfrom, hend⟩ := bind_eq_ok.mp heval
  obtain ⟨ops, hops, hrounds⟩ := evalFrom_eq_ok (Nat.le_refl _) hfrom
  refine ⟨ops, machine, hops, hrounds, ?_⟩
  split_ifs at hend with hexec
  cases hend
  exact ⟨not_not.mp hexec, rfl⟩

theorem evalOps_induction (property : Machine → Prop)
    (hround : ∀ op machine next, property machine → evalRound env flags op machine = .ok next →
      property next) {ops : List ScriptOp} {machine final : Machine} (hstart : property machine)
    (heval : evalOps env flags ops machine = .ok final) : property final := by
  induction ops generalizing machine with
  | nil =>
    cases heval
    exact hstart
  | cons op ops ih =>
    obtain ⟨next, hfirst, hrest⟩ := evalOps_cons_eq_ok.mp heval
    exact ih (hround op machine next hstart hfirst) hrest

/-- Two machines differ in nothing but the count of operations and the mark of long
elements. -/
structure Machine.Alike (machine other : Machine) : Prop where
  stack : other.stack = machine.stack
  exec : other.exec = machine.exec
  scriptCode : other.scriptCode = machine.scriptCode
  sigOps : other.sigOps = machine.sigOps

variable {machine next : Machine}

theorem checkElementSize_alike
    (hcheck : checkElementSize env op machine = .ok next) : machine.Alike next := by
  unfold checkElementSize at hcheck
  split_ifs at hcheck <;> cases hcheck <;> exact ⟨rfl, rfl, rfl, rfl⟩

theorem countOp_alike (hcount : countOp op machine = .ok next) : machine.Alike next := by
  unfold countOp at hcount
  split_ifs at hcount <;> cases hcount <;> exact ⟨rfl, rfl, rfl, rfl⟩

theorem evalRound_execute (hround : evalRound env flags op machine = .ok next) :
    ∃ ready, machine.Alike ready ∧ execute env flags op ready = .ok next := by
  obtain ⟨checked, hcheck, hround⟩ := bind_eq_ok.mp hround
  obtain ⟨ready, hcount, hround⟩ := bind_eq_ok.mp hround
  split_ifs at hround
  obtain ⟨next', hexecute, hend⟩ := bind_eq_ok.mp hround
  split_ifs at hend
  cases hend
  have hchecked := checkElementSize_alike hcheck
  have hready := countOp_alike hcount
  exact ⟨ready, ⟨hready.stack.trans hchecked.stack, hready.exec.trans hchecked.exec,
    hready.scriptCode.trans hchecked.scriptCode, hready.sigOps.trans hchecked.sigOps⟩, hexecute⟩

def Accepted.Checked (env : EvalEnv) (accepted : Accepted) : Prop :=
  env.checkSig accepted.signature accepted.pubKey accepted.scriptCode = true

def Accepted.MaySend (env : EvalEnv) (accepted : Accepted) : Prop :=
  env.canSend (env.hashes.hash160 accepted.pubKey) = true

/-- What a signature operation does: the accepted signatures check out, and when it comes
out true where the permission counts, the key of one of them may send. -/
structure SigOp.Sound (env : EvalEnv) (flags : VerifyFlags) (sigOp : SigOp) : Prop where
  checked : ∀ accepted ∈ sigOp.accepted, accepted.Checked env
  maySend : sigOp.success = true → flags.skipSendPermissionCheck = false →
    env.params.isProtocolMultichain = true → ∃ accepted ∈ sigOp.accepted, accepted.MaySend env

theorem checkSigSend_spec (env : EvalEnv) (sig pubKey scriptCode : Bytes) (cannotSend : Bool) :
    (checkSigSend env sig pubKey scriptCode cannotSend).1 = env.checkSig sig pubKey scriptCode
      ∧ ((checkSigSend env sig pubKey scriptCode cannotSend).2 = false →
        env.params.isProtocolMultichain = true → cannotSend = false
          ∨ env.checkSig sig pubKey scriptCode = true
            ∧ env.canSend (env.hashes.hash160 pubKey) = true) := by
  unfold checkSigSend
  split_ifs with hcheck
  · refine ⟨hcheck.symm, ?_⟩
    intro hfalse hmultichain
    cases cannotSend with
    | false => exact .inl rfl
    | true =>
      rw [hmultichain] at hfalse
      exact .inr ⟨hcheck, by simpa using hfalse⟩
  refine ⟨(Bool.eq_false_iff.mpr hcheck).symm, ?_⟩
  intro hfalse _
  exact .inl hfalse

theorem pushResult_spec {verify success : Bool} {err : ScriptError} {rest main : List Bytes}
    (hpush : pushResult verify err success rest = .ok main) :
    if verify then success = true ∧ main = rest else main = vchOf success :: rest := by
  unfold pushResult at hpush
  split_ifs at hpush ⊢ with hverify hsuccess
  · cases hpush
    exact ⟨hsuccess, rfl⟩
  cases hpush
  rfl

/-- `OP_CHECKSIG` reads a key and a signature and logs what it finds. -/
theorem checkSigOp_spec {verify : Bool} (hop : checkSigOp env flags verify machine = .ok next) :
    ∃ pubKey sig rest sigOp main, machine.stack.main = pubKey :: sig :: rest
      ∧ next = machine.afterSigOp main sigOp ∧ sigOp.Sound env flags ∧ (∀ accepted ∈ sigOp.accepted,
        accepted = ⟨sig, pubKey, findAndDelete (Miner.pushData sig) machine.scriptCode⟩)
      ∧ (sigOp.success = true → sigOp.accepted ≠ [])
      ∧ (if verify then sigOp.success = true ∧ main = rest
        else main = vchOf sigOp.success :: rest) := by
  unfold checkSigOp at hop
  split at hop
  · rename_i pubKey sig rest hstack
    obtain ⟨-, -, hop⟩ := bind_eq_ok.mp hop
    obtain ⟨main, hpush, hop⟩ := bind_eq_ok.mp hop
    cases hop
    set code := findAndDelete (Miner.pushData sig) machine.scriptCode with hcode
    obtain ⟨hfirst, hsecond⟩ := checkSigSend_spec env sig pubKey code !flags.skipSendPermissionCheck
    refine ⟨pubKey, sig, rest, _, main, hstack, rfl, ⟨?_, ?_⟩, ?_, ?_, ?_⟩
    · intro accepted hmem
      rw [hfirst] at hmem
      split_ifs at hmem with hcheck
      · rw [List.mem_singleton.mp hmem]
        exact hcheck
      · cases hmem
    · intro hsuccess hskip hmultichain
      rw [Bool.and_eq_true, Bool.not_eq_true'] at hsuccess
      obtain ⟨hok, hcannot⟩ := hsuccess
      rcases hsecond hcannot hmultichain with hfalse | ⟨-, hsend⟩
      · rw [hskip] at hfalse
        cases hfalse
      · exact ⟨⟨sig, pubKey, code⟩, by rw [if_pos hok]; exact List.mem_singleton_self _, hsend⟩
    · intro accepted hmem
      split_ifs at hmem
      · exact List.mem_singleton.mp hmem
      · cases hmem
    · intro hsuccess
      rw [Bool.and_eq_true] at hsuccess
      rw [if_pos hsuccess.1]
      exact List.cons_ne_nil _ _
    · exact pushResult_spec hpush
  cases hop

structure MultisigResult.From (env : EvalEnv) (scriptCode : Bytes) (keys sigs : List Bytes)
    (cannotSend : Bool) (extra : List Accepted) (result : MultisigResult) : Prop where
  checked : ∀ accepted ∈ extra, accepted.Checked env
  scriptCode_eq : ∀ accepted ∈ extra, accepted.scriptCode = scriptCode
  signature_mem : ∀ accepted ∈ extra, accepted.signature ∈ sigs
  pubKey_mem : ∀ accepted ∈ extra, accepted.pubKey ∈ keys
  all : result.success = true → extra.length = sigs.length
  sublist : (extra.map Accepted.pubKey).Sublist keys
  maySend : result.cannotSend = false → env.params.isProtocolMultichain = true →
    cannotSend = false ∨ ∃ accepted ∈ extra, accepted.MaySend env

namespace MultisigResult.From

variable {keys sigs : List Bytes} {cannotSend left : Bool} {extra : List Accepted}
  {result : MultisigResult} {sig pubKey scriptCode : Bytes}

/-- Nothing more is accepted. -/
theorem stop (hall : result.success = true → sigs = [])
    (hcannot : result.cannotSend = cannotSend) : result.From env scriptCode keys sigs cannotSend [] where
  checked := nofun
  scriptCode_eq := nofun
  signature_mem := nofun
  pubKey_mem := nofun
  all hsuccess := by
    rw [hall hsuccess]
    rfl
  sublist := List.nil_sublist _
  maySend hfalse _ := .inl (hcannot.symm.trans hfalse)

/-- The first signature fits to the first key. -/
theorem accept (hcheck : env.checkSig sig pubKey scriptCode = true)
    (hleft : left = false → env.params.isProtocolMultichain = true →
      cannotSend = false ∨ env.canSend (env.hashes.hash160 pubKey) = true)
    (hfrom : result.From env scriptCode keys sigs left extra) :
    result.From env scriptCode (pubKey :: keys) (sig :: sigs) cannotSend
      (⟨sig, pubKey, scriptCode⟩ :: extra) where
  checked := List.forall_mem_cons.mpr ⟨hcheck, hfrom.checked⟩
  scriptCode_eq := List.forall_mem_cons.mpr ⟨rfl, hfrom.scriptCode_eq⟩
  signature_mem := List.forall_mem_cons.mpr
    ⟨List.mem_cons_self, fun accepted hmem =>
      List.mem_cons_of_mem _ (hfrom.signature_mem accepted hmem)⟩
  pubKey_mem := List.forall_mem_cons.mpr
    ⟨List.mem_cons_self, fun accepted hmem =>
      List.mem_cons_of_mem _ (hfrom.pubKey_mem accepted hmem)⟩
  all hsuccess := by rw [List.length_cons, List.length_cons, hfrom.all hsuccess]
  sublist := hfrom.sublist.cons_cons pubKey
  maySend hfalse hmultichain := by
    rcases hfrom.maySend hfalse hmultichain with hcannot | ⟨accepted, hmem, hsend⟩
    · rcases hleft hcannot hmultichain with hfalse | hsend
      · exact .inl hfalse
      · exact .inr ⟨_, (.head _), hsend⟩
    exact .inr ⟨accepted, List.mem_cons_of_mem _ hmem, hsend⟩

theorem pass (hfrom : result.From env scriptCode keys sigs cannotSend extra) (pubKey : Bytes) :
    result.From env scriptCode (pubKey :: keys) sigs cannotSend extra where
  checked := hfrom.checked
  scriptCode_eq := hfrom.scriptCode_eq
  signature_mem := hfrom.signature_mem
  pubKey_mem accepted hmem := List.mem_cons_of_mem _ (hfrom.pubKey_mem accepted hmem)
  all := hfrom.all
  sublist := hfrom.sublist.cons pubKey
  maySend := hfrom.maySend

end MultisigResult.From

theorem multisigFrom_spec {scriptCode : Bytes} {keys sigs : List Bytes} {cannotSend : Bool}
    {accepted : List Accepted} {result : MultisigResult}
    (hloop : multisigFrom env flags scriptCode keys sigs cannotSend accepted = .ok result) :
    ∃ extra, result.accepted = accepted ++ extra
      ∧ result.From env scriptCode keys sigs cannotSend extra := by
  induction keys generalizing sigs cannotSend accepted with
  | nil =>
    cases sigs with
    | nil =>
      cases hloop
      exact ⟨[], (List.append_nil _).symm, .stop (fun _ => rfl) rfl⟩
    | cons sig sigs =>
      cases hloop
      exact ⟨[], (List.append_nil _).symm, .stop nofun rfl⟩
  | cons pubKey keys ih =>
    cases sigs with
    | nil =>
      cases hloop
      exact ⟨[], (List.append_nil _).symm, .stop (fun _ => rfl) rfl⟩
    | cons sig sigs =>
      obtain ⟨-, -, hloop⟩ := bind_eq_ok.mp hloop
      obtain ⟨hfirst, hsecond⟩ := checkSigSend_spec env sig pubKey scriptCode cannotSend
      by_cases hcheck : env.checkSig sig pubKey scriptCode = true
      · have hok := hfirst.trans hcheck
        have hleft hfalse hmultichain := (hsecond hfalse hmultichain).imp_right And.right
        dsimp only at hloop
        split_ifs at hloop with hshort
        · cases hloop
          exact ⟨[⟨sig, pubKey, scriptCode⟩], rfl, .accept hcheck hleft (.stop nofun rfl)⟩
        obtain ⟨extra, happend, hfrom⟩ := ih hloop
        exact ⟨⟨sig, pubKey, scriptCode⟩ :: extra, by rw [happend, List.append_assoc]; rfl,
          .accept hcheck hleft hfrom⟩
      have hsame : checkSigSend env sig pubKey scriptCode cannotSend = (false, cannotSend) := by
        rw [checkSigSend, if_neg hcheck]
      rw [hsame] at hloop
      dsimp only at hloop
      rw [if_neg Bool.false_ne_true, if_neg Bool.false_ne_true] at hloop
      split_ifs at hloop with hshort
      · cases hloop
        exact ⟨[], (List.append_nil _).symm, .stop nofun rfl⟩
      obtain ⟨extra, happend, hfrom⟩ := ih hloop
      exact ⟨extra, happend, hfrom.pass pubKey⟩

/-- `OP_CHECKMULTISIG` reads keys and signatures and logs what it finds. -/
theorem checkMultisigOp_spec {verify : Bool}
    (hop : checkMultisigOp env flags verify machine = .ok next) :
    ∃ args sigOp main, multisigArgs flags machine = .ok args
      ∧ next = { machine with opCount := args.opCount }.afterSigOp main sigOp
      ∧ sigOp.Sound env flags
      ∧ (∀ accepted ∈ sigOp.accepted, accepted.signature ∈ args.sigs ∧ accepted.pubKey ∈ args.keys
        ∧ accepted.scriptCode = args.scriptCode machine.scriptCode)
      ∧ (sigOp.success = true → sigOp.accepted.length = args.sigs.length)
      ∧ (sigOp.accepted.map Accepted.pubKey).Sublist args.keys
      ∧ (if verify then sigOp.success = true ∧ main = args.rest
        else main = vchOf sigOp.success :: args.rest) := by
  obtain ⟨args, hargs, hop⟩ := bind_eq_ok.mp hop
  obtain ⟨found, hloop, hop⟩ := bind_eq_ok.mp hop
  split_ifs at hop
  obtain ⟨main, hpush, hop⟩ := bind_eq_ok.mp hop
  cases hop
  obtain ⟨extra, hextra, hfrom⟩ := multisigFrom_spec hloop
  subst hextra
  refine ⟨args, _, main, hargs, rfl, ⟨hfrom.checked, ?_⟩, ?_, ?_, hfrom.sublist,
    pushResult_spec hpush⟩
  · intro hsuccess hskip hmultichain
    rw [Bool.and_eq_true, Bool.not_eq_true'] at hsuccess
    rcases hfrom.maySend hsuccess.2 hmultichain with hfalse | hsend
    · rw [hskip, hmultichain] at hfalse
      cases hfalse
    · exact hsend
  · exact fun accepted hmem => ⟨hfrom.signature_mem accepted hmem,
      hfrom.pubKey_mem accepted hmem, hfrom.scriptCode_eq accepted hmem⟩
  intro hsuccess
  rw [Bool.and_eq_true] at hsuccess
  exact hfrom.all hsuccess.1

theorem conditionOp_sigOps {opcode : Byte} {running : Bool}
    (hop : conditionOp opcode running machine = .ok next) : next.sigOps = machine.sigOps := by
  unfold conditionOp at hop
  split at hop
  · split at hop
    · split at hop
      · cases hop
        rfl
      · cases hop
    cases hop
    rfl
  split at hop
  · split at hop
    · cases hop
      rfl
    · cases hop
  split at hop
  · split at hop
    · cases hop
      rfl
    · cases hop
  cases hop

/-- Only signature operations are logged. -/
theorem execute_sigOps (hexecute : execute env flags op machine = .ok next) :
    next.sigOps = machine.sigOps
      ∨ ∃ sigOp, next.sigOps = machine.sigOps ++ [sigOp] ∧ sigOp.Sound env flags := by
  unfold execute at hexecute
  dsimp only at hexecute
  split_ifs at hexecute
  · cases hexecute
    exact .inl rfl
  · exact .inl (conditionOp_sigOps hexecute)
  · cases hexecute
    exact .inl rfl
  · obtain ⟨_, _, _, sigOp, _, -, rfl, hsound, -⟩ := checkSigOp_spec hexecute
    exact .inr ⟨sigOp, rfl, hsound⟩
  · obtain ⟨_, sigOp, _, -, rfl, hsound, -⟩ := checkMultisigOp_spec hexecute
    exact .inr ⟨sigOp, rfl, hsound⟩
  · cases hstack : stackOp env.hashes flags op.opcode machine.stack with
    | error err => rw [hstack] at hexecute; cases hexecute
    | ok stack =>
      rw [hstack] at hexecute
      cases hexecute
      exact .inl rfl
  cases hexecute
  exact .inl rfl

theorem evalScript_sound {stack : List Bytes} {script : Bytes} {result : Evaluated}
    (heval : evalScript env flags stack script = .ok result) :
    ∀ sigOp ∈ result.sigOps, sigOp.Sound env flags := by
  obtain ⟨ops, machine, -, hrounds, -, rfl⟩ := evalScript_eq_ok heval
  refine evalOps_induction (fun machine => ∀ sigOp ∈ machine.sigOps, sigOp.Sound env flags) ?_
    (List.forall_mem_nil _) hrounds
  intro op machine next hmachine hround
  obtain ⟨ready, halike, hexecute⟩ := evalRound_execute hround
  rcases execute_sigOps hexecute with hsame | ⟨sigOp, happend, hsound⟩
  · rw [hsame, halike.sigOps]
    exact hmachine
  rw [happend, halike.sigOps]
  intro other hmem
  rcases List.mem_append.mp hmem with hmem | hmem
  · exact hmachine other hmem
  rw [List.mem_singleton.mp hmem]
  exact hsound

/-- The signatures that were accepted so far. -/
def Machine.accepted (machine : Machine) : ℕ :=
  (machine.sigOps.map fun sigOp => sigOp.accepted.length).sum

theorem accepted_afterSigOp (main : List Bytes) (sigOp : SigOp) :
    (machine.afterSigOp main sigOp).accepted = machine.accepted + sigOp.accepted.length := by
  simp [Machine.accepted, Machine.afterSigOp]

/-- `OP_CHECKMULTISIG` counts its keys. -/
theorem multisigArgs_opCount {args : MultisigArgs} (hargs : multisigArgs flags machine = .ok args) :
    args.opCount ≤ 201 ∧ machine.opCount + args.keys.length ≤ args.opCount := by
  unfold multisigArgs at hargs
  split at hargs
  · cases hargs
  obtain ⟨keysCount, -, hargs⟩ := bind_eq_ok.mp hargs
  split_ifs at hargs with hlimit
  split at hargs
  · cases hargs
  obtain ⟨sigsCount, -, hargs⟩ := bind_eq_ok.mp hargs
  split at hargs <;> cases hargs
  exact ⟨not_lt.mp hlimit, Nat.add_le_add_left (List.length_take_le _ _) _⟩

theorem conditionOp_opCount {opcode : Byte} {running : Bool}
    (hop : conditionOp opcode running machine = .ok next) : next.opCount = machine.opCount := by
  unfold conditionOp at hop
  split_ifs at hop
  all_goals first | (cases hop; rfl) | (split at hop <;> cases hop; rfl)

/-- Signatures are accepted by operations that count. -/
theorem execute_accepted (hexecute : execute env flags op machine = .ok next) :
    (next.opCount = machine.opCount ∨ next.opCount ≤ 201) ∧ next.accepted + machine.opCount
      ≤ machine.accepted + next.opCount + if OP_16 < op.opcode then 1 else 0 := by
  have hframe : next.opCount = machine.opCount → next.sigOps = machine.sigOps →
      (next.opCount = machine.opCount ∨ next.opCount ≤ 201) ∧ next.accepted + machine.opCount
        ≤ machine.accepted + next.opCount + if OP_16 < op.opcode then 1 else 0 := by
    intro hcount hsigOps
    rw [Machine.accepted, hsigOps, hcount]
    exact ⟨.inl rfl, Nat.le_add_right _ _⟩
  unfold execute at hexecute
  dsimp only at hexecute
  split_ifs at hexecute with _ _ _ _ _ hsig
  · cases hexecute
    exact hframe rfl rfl
  · exact hframe (conditionOp_opCount hexecute) (conditionOp_sigOps hexecute)
  · cases hexecute
    exact hframe rfl rfl
  · unfold checkSigOp at hexecute
    split at hexecute
    · obtain ⟨-, -, hexecute⟩ := bind_eq_ok.mp hexecute
      obtain ⟨main, -, hexecute⟩ := bind_eq_ok.mp hexecute
      cases hexecute
      have hcounts : OP_16 < op.opcode := by
        rcases hsig with heq | heq <;> rw [heq] <;> decide
      rw [accepted_afterSigOp, if_pos hcounts]
      refine ⟨.inl rfl, ?_⟩
      dsimp only [Machine.afterSigOp]
      split <;> simp only [List.length_cons, List.length_nil] <;> omega
    cases hexecute
  · obtain ⟨args, sigOp, main, hargs, rfl, -, -, -, hsublist, -⟩ := checkMultisigOp_spec hexecute
    obtain ⟨hlimit, hkeys⟩ := multisigArgs_opCount hargs
    have hlength := hsublist.length_le
    rw [List.length_map] at hlength
    rw [accepted_afterSigOp]
    refine ⟨.inr hlimit, ?_⟩
    change machine.accepted + _ + _ ≤ machine.accepted + args.opCount + _
    omega
  · cases hstack : stackOp env.hashes flags op.opcode machine.stack with
    | error err => rw [hstack] at hexecute; cases hexecute
    | ok stack =>
      rw [hstack] at hexecute
      cases hexecute
      exact hframe rfl rfl
  cases hexecute
  exact hframe rfl rfl

def Machine.Bounded (machine : Machine) : Prop :=
  machine.accepted ≤ machine.opCount ∧ machine.opCount ≤ 201 ∧
    machine.stack.main.length + machine.stack.alt.length ≤ 1000

def noHashes : HashFunctions :=
  ⟨fun _ => 0, fun _ => 0, fun _ => 0, fun _ => 0, fun _ => 0⟩

end Amberchain.Interpreter
