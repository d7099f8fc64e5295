import Amberchain.Interpreter.Rounds
import Amberchain.Script.MultiElement
import Amberchain.Script.StandardOutputs

/-!
# Evaluating scripts of the standard types

What an input script of pushes leaves on the stack, and what an output script of a
standard type does with it.
-/

namespace Amberchain.Interpreter

open Folding (bind_eq_ok)
open Script (HasOps IsDrops StandardOps addressOf vectorToAddress)

variable {env : EvalEnv} {flags : VerifyFlags} {op : ScriptOp} {ops : List ScriptOp}
  {machine next final : Machine}

structure Machine.Becomes (machine next : Machine) (main : List Bytes) : Prop where
  main : next.stack.main = main
  exec : next.exec = machine.exec
  scriptCode : next.scriptCode = machine.scriptCode
  sigOps : next.sigOps = machine.sigOps

theorem Machine.Becomes.trans {main main' : List Bytes} (hnext : machine.Becomes next main)
    (hfinal : next.Becomes final main') : machine.Becomes final main' :=
  ⟨hfinal.main, hfinal.exec.trans hnext.exec, hfinal.scriptCode.trans hnext.scriptCode,
    hfinal.sigOps.trans hnext.sigOps⟩

theorem evalRound_push (hexec : machine.exec = []) (hpush : op.opcode ≤ OP_PUSHDATA4)
    (hround : evalRound env flags op machine = .ok next) :
    machine.Becomes next (op.data :: machine.stack.main) := by
  obtain ⟨ready, halike, hexecute⟩ := evalRound_execute hround
  have hrunning : ready.exec.all id = true := by rw [halike.exec, hexec]; rfl
  unfold execute at hexecute
  rw [if_pos ⟨hrunning, hpush⟩] at hexecute
  split_ifs at hexecute
  cases hexecute
  exact ⟨by rw [halike.stack], halike.exec, halike.scriptCode, halike.sigOps⟩

def isStackOpcode (opcode : Byte) : Bool :=
  OP_PUSHDATA4 < opcode ∧ ¬ inRange OP_IF OP_ENDIF opcode ∧ opcode ≠ OP_CODESEPARATOR
    ∧ opcode ≠ OP_CHECKSIG ∧ opcode ≠ OP_CHECKSIGVERIFY ∧ opcode ≠ OP_CHECKMULTISIG
    ∧ opcode ≠ OP_CHECKMULTISIGVERIFY

theorem evalRound_stackOp (hexec : machine.exec = []) (hop : isStackOpcode op.opcode = true)
    (hround : evalRound env flags op machine = .ok next) :
    ∃ stack, stackOp env.hashes flags op.opcode machine.stack = .ok stack
      ∧ machine.Becomes next stack.main := by
  obtain ⟨ready, halike, hexecute⟩ := evalRound_execute hround
  have hrunning : ready.exec.all id = true := by rw [halike.exec, hexec]; rfl
  obtain ⟨hplain, hcondition, hcode, hsig, hsigVerify, hmulti, hmultiVerify⟩ :=
    of_decide_eq_true hop
  unfold execute at hexecute
  rw [if_neg (fun h => absurd hplain (BitVec.not_lt.mpr h.2)), if_neg hcondition,
    if_neg (not_not.mpr hrunning), if_neg hcode, if_neg (not_or.mpr ⟨hsig, hsigVerify⟩),
    if_neg (not_or.mpr ⟨hmulti, hmultiVerify⟩), halike.stack] at hexecute
  cases hstack : stackOp env.hashes flags op.opcode machine.stack with
  | error err => rw [hstack] at hexecute; cases hexecute
  | ok stack =>
    rw [hstack] at hexecute
    cases hexecute
    exact ⟨stack, rfl, rfl, halike.exec, halike.scriptCode, halike.sigOps⟩

/-- What a signature operation leaves: its result on the stack, and one entry in the log. -/
structure Machine.Signs (env : EvalEnv) (flags : VerifyFlags) (machine next : Machine)
    (sigOp : SigOp) (rest : List Bytes) : Prop where
  main : next.stack.main = vchOf sigOp.success :: rest
  exec : next.exec = machine.exec
  sigOps : next.sigOps = machine.sigOps ++ [sigOp]
  sound : sigOp.Sound env flags
  accepted : sigOp.success = true → sigOp.accepted ≠ []

theorem evalRound_checkSig (hexec : machine.exec = []) (hop : op.opcode = OP_CHECKSIG)
    (hround : evalRound env flags op machine = .ok next) :
    ∃ pubKey sig rest sigOp, machine.stack.main = pubKey :: sig :: rest
      ∧ machine.Signs env flags next sigOp rest ∧ ∀ accepted ∈ sigOp.accepted,
        accepted = ⟨sig, pubKey, findAndDelete (Miner.pushData sig) machine.scriptCode⟩ := by
  obtain ⟨ready, halike, hexecute⟩ := evalRound_execute hround
  have hrunning : ready.exec.all id = true := by rw [halike.exec, hexec]; rfl
  unfold execute at hexecute
  rw [hop, if_neg (fun h => absurd h.2 (by decide)), if_neg (not_not.mpr hrunning)] at hexecute
  obtain ⟨pubKey, sig, rest, sigOp, main, hmain, rfl, hsound, haccepted, hsome, hresult⟩ :=
    checkSigOp_spec hexecute
  rw [halike.stack] at hmain
  rw [halike.scriptCode] at haccepted
  exact ⟨pubKey, sig, rest, sigOp, hmain,
    ⟨hresult, halike.exec, congrArg (· ++ [sigOp]) halike.sigOps, hsound, hsome⟩, haccepted⟩

theorem evalRound_checkMultisig (hexec : machine.exec = []) (hop : op.opcode = OP_CHECKMULTISIG)
    (hround : evalRound env flags op machine = .ok next) :
    ∃ ready args sigOp, ready.stack = machine.stack ∧ multisigArgs flags ready = .ok args
      ∧ next.stack.main = vchOf sigOp.success :: args.rest ∧ next.exec = machine.exec
      ∧ next.sigOps = machine.sigOps ++ [sigOp] ∧ sigOp.Sound env flags
      ∧ (∀ accepted ∈ sigOp.accepted, accepted.signature ∈ args.sigs ∧ accepted.pubKey ∈ args.keys
        ∧ accepted.scriptCode = args.scriptCode machine.scriptCode)
      ∧ (sigOp.success = true → sigOp.accepted.length = args.sigs.length)
      ∧ (sigOp.accepted.map Accepted.pubKey).Sublist args.keys := by
  obtain ⟨ready, halike, hexecute⟩ := evalRound_execute hround
  have hrunning : ready.exec.all id = true := by rw [halike.exec, hexec]; rfl
  unfold execute at hexecute
  rw [hop, if_neg (fun h => absurd h.2 (by decide)), if_neg (not_not.mpr hrunning)] at hexecute
  obtain ⟨args, sigOp, main, hargs, rfl, hsound, haccepted, hlength, hsublist, hresult⟩ :=
    checkMultisigOp_spec hexecute
  rw [halike.scriptCode] at haccepted
  exact ⟨ready, args, sigOp, halike.stack, hargs, hresult, halike.exec,
    congrArg (· ++ [sigOp]) halike.sigOps, hsound, haccepted, hlength, hsublist⟩

def pushedValue (op : ScriptOp) : Bytes :=
  if op.opcode ≤ OP_PUSHDATA4 then op.data else serialize ((op.opcode.toNat : ℤ) - 0x50)

theorem isStackOpcode_small {opcode : Byte} (hplain : OP_PUSHDATA4 < opcode)
    (hpush : opcode ≤ OP_16) : isStackOpcode opcode = true := by
  revert hplain hpush
  revert opcode
  decide +kernel

theorem eq_reserved {opcode : Byte} (hplain : OP_PUSHDATA4 < opcode) (hpush : opcode ≤ OP_16)
    (hsmall : ¬ (opcode = OP_1NEGATE ∨ inRange OP_1 OP_16 opcode = true)) : opcode = 0x50 := by
  revert hplain hpush hsmall
  revert opcode
  decide +kernel

theorem evalRound_pushOnly (hexec : machine.exec = []) (hpush : op.opcode ≤ OP_16)
    (hround : evalRound env flags op machine = .ok next) :
    machine.Becomes next (pushedValue op :: machine.stack.main) := by
  by_cases hdata : op.opcode ≤ OP_PUSHDATA4
  · rw [pushedValue, if_pos hdata]
    exact evalRound_push hexec hdata hround
  rw [pushedValue, if_neg hdata]
  have hplain := BitVec.not_le.mp hdata
  obtain ⟨stack, hstack, hbecomes⟩ := evalRound_stackOp hexec (isStackOpcode_small hplain hpush)
    hround
  have hmain : stack.main = serialize ((op.opcode.toNat : ℤ) - 0x50) :: machine.stack.main := by
    by_cases hsmall : op.opcode = OP_1NEGATE ∨ inRange OP_1 OP_16 op.opcode = true
    · rw [stackOp, if_pos hsmall] at hstack
      cases hstack
      rfl
    rw [eq_reserved hplain hpush hsmall] at hstack
    cases hstack
  rw [← hmain]
  exact hbecomes

theorem evalOps_pushOnly (hexec : machine.exec = []) (hpush : ∀ op ∈ ops, op.opcode ≤ OP_16)
    (heval : evalOps env flags ops machine = .ok final) :
    machine.Becomes final ((ops.map pushedValue).reverse ++ machine.stack.main) := by
  induction ops generalizing machine with
  | nil =>
    cases heval
    exact ⟨rfl, rfl, rfl, rfl⟩
  | cons op ops ih =>
    obtain ⟨next, hround, heval⟩ := evalOps_cons_eq_ok.mp heval
    have hnext := evalRound_pushOnly hexec (hpush op (.head _)) hround
    have hfinal := hnext.trans (ih (hnext.exec.trans hexec)
      (fun other hmem => hpush other (.tail _ hmem)) heval)
    rw [hnext.main] at hfinal
    rw [List.map_cons, List.reverse_cons, List.append_assoc]
    exact hfinal

theorem evalOps_cons_push (hexec : machine.exec = []) (hpush : op.opcode ≤ OP_PUSHDATA4)
    (heval : evalOps env flags (op :: ops) machine = .ok final) :
    ∃ next, machine.Becomes next (op.data :: machine.stack.main) ∧ next.exec = []
      ∧ evalOps env flags ops next = .ok final := by
  obtain ⟨next, hround, heval⟩ := evalOps_cons_eq_ok.mp heval
  have hnext := evalRound_push hexec hpush hround
  exact ⟨next, hnext, hnext.exec.trans hexec, heval⟩

theorem evalOps_cons_stackOp {opcode : Byte} (hexec : machine.exec = [])
    (hopcode : op.opcode = opcode) (hplain : isStackOpcode opcode = true)
    (heval : evalOps env flags (op :: ops) machine = .ok final) :
    ∃ stack next, stackOp env.hashes flags opcode machine.stack = .ok stack
      ∧ machine.Becomes next stack.main ∧ next.exec = []
      ∧ evalOps env flags ops next = .ok final := by
  subst hopcode
  obtain ⟨next, hround, heval⟩ := evalOps_cons_eq_ok.mp heval
  obtain ⟨stack, hok, hbecomes⟩ := evalRound_stackOp hexec hplain hround
  exact ⟨stack, next, hok, hbecomes, hbecomes.exec.trans hexec, heval⟩

/-- Elements that are pushed and dropped leave the stack as it is. -/
theorem evalOps_drops (hdrops : IsDrops ops) (hexec : machine.exec = [])
    (heval : evalOps env flags ops machine = .ok final) :
    machine.Becomes final machine.stack.main := by
  induction hdrops generalizing machine with
  | nil =>
    cases heval
    exact ⟨rfl, rfl, rfl, rfl⟩
  | @cons push drop rest hpush hdrop _ ih =>
    obtain ⟨pushed, hpushed, hexec', heval⟩ := evalOps_cons_push hexec hpush heval
    obtain ⟨stack, dropped, hstack, hbecomes, -, heval⟩ :=
      evalOps_cons_stackOp hexec' hdrop (by decide) heval
    have hmoved : stackOp env.hashes flags OP_DROP pushed.stack
        = .ok { pushed.stack with main := machine.stack.main } := by
      change moveOp flags OP_DROP pushed.stack = _
      unfold moveOp
      rw [hpushed.main]
      rfl
    rw [hmoved] at hstack
    cases hstack
    have hdropped := hpushed.trans hbecomes
    have hfinal := hdropped.trans (ih (hdropped.exec.trans hexec) heval)
    rwa [hdropped.main] at hfinal

theorem stackOp_hash160 {stack next : Stacks}
    (hstack : stackOp env.hashes flags OP_HASH160 stack = .ok next) :
    ∃ x rest, stack.main = x :: rest
      ∧ next = { stack with main := putLE (env.hashes.hash160 x).toNat 20 :: rest } := by
  change hashOp env.hashes OP_HASH160 stack = _ at hstack
  unfold hashOp at hstack
  split at hstack
  next x rest hmain =>
    cases hstack
    exact ⟨x, rest, hmain, rfl⟩
  · cases hstack

theorem stackOp_equal {stack next : Stacks}
    (hstack : stackOp env.hashes flags OP_EQUAL stack = .ok next) :
    ∃ x2 x1 rest, stack.main = x2 :: x1 :: rest
      ∧ next = { stack with main := vchOf (decide (x1 = x2)) :: rest } := by
  change equalOp OP_EQUAL stack = _ at hstack
  unfold equalOp at hstack
  split at hstack
  next x2 x1 rest hmain =>
    cases hstack
    exact ⟨x2, x1, rest, hmain, rfl⟩
  · cases hstack

theorem stackOp_equalVerify {stack next : Stacks}
    (hstack : stackOp env.hashes flags OP_EQUALVERIFY stack = .ok next) :
    ∃ x rest, stack.main = x :: x :: rest ∧ next = { stack with main := rest } := by
  change equalOp OP_EQUALVERIFY stack = _ at hstack
  unfold equalOp at hstack
  split at hstack
  next x2 x1 rest hmain =>
    rw [if_pos rfl] at hstack
    split_ifs at hstack with hequal
    cases hstack
    subst hequal
    exact ⟨x1, rest, hmain, rfl⟩
  · cases hstack

theorem stackOp_dup {stack next : Stacks}
    (hstack : stackOp env.hashes flags OP_DUP stack = .ok next) :
    ∃ x rest, stack.main = x :: rest ∧ next = { stack with main := x :: x :: rest } := by
  change moveOp flags OP_DUP stack = _ at hstack
  unfold moveOp at hstack
  rw [if_neg (by decide), if_neg (by decide), if_neg (by decide), if_neg (by decide),
    if_neg (by decide), if_neg (by decide), if_neg (by decide), if_neg (by decide),
    if_neg (by decide), if_neg (by decide), if_neg (by decide), if_pos rfl] at hstack
  split at hstack
  next x rest hmain =>
    cases hstack
    exact ⟨x, rest, hmain, rfl⟩
  · cases hstack

theorem Machine.Signs.drops {sigOp : SigOp} {rest : List Bytes} {drops : List ScriptOp}
    (hsigns : machine.Signs env flags next sigOp rest) (hexec : machine.exec = [])
    (hdrops : IsDrops drops) (heval : evalOps env flags drops next = .ok final) :
    machine.Signs env flags final sigOp rest := by
  have hfinal := evalOps_drops hdrops (hsigns.exec.trans hexec) heval
  exact ⟨hfinal.main.trans hsigns.main, hfinal.exec.trans hsigns.exec,
    hfinal.sigOps.trans hsigns.sigOps, hsigns.sound, hsigns.accepted⟩

theorem Machine.Becomes.signs {main rest : List Bytes} {sigOp : SigOp}
    (hnext : machine.Becomes next main) (hsigns : next.Signs env flags final sigOp rest) :
    machine.Signs env flags final sigOp rest :=
  ⟨hsigns.main, hsigns.exec.trans hnext.exec, by rw [hsigns.sigOps, hnext.sigOps],
    hsigns.sound, hsigns.accepted⟩

variable {scriptEnv : ScriptEnv} {addresses : List Destination}

/-- A public key hash: the top of the stack has the hash, and signs with what is below. -/
theorem evalOps_pubkeyHash (hops : StandardOps scriptEnv .pubkeyHash addresses ops)
    (hexec : machine.exec = []) (heval : evalOps env flags ops machine = .ok final) :
    ∃ pubKey sig rest sigOp, machine.stack.main = pubKey :: sig :: rest
      ∧ addresses = [.key (env.hashes.hash160 pubKey)] ∧ machine.Signs env flags final sigOp rest
      ∧ ∀ accepted ∈ sigOp.accepted,
        accepted = ⟨sig, pubKey, findAndDelete (Miner.pushData sig) machine.scriptCode⟩ := by
  cases hops with
  | @pubkeyHash dup hash push verify check drops hdup hhash hpush hdata hverify hcheck hdrops =>
    obtain ⟨_, doubled, hok, hdoubled, hexec₁, heval⟩ :=
      evalOps_cons_stackOp hexec hdup (by decide) heval
    obtain ⟨pubKey, below, hmain, rfl⟩ := stackOp_dup hok
    obtain ⟨_, hashed, hok, hhashed, hexec₂, heval⟩ :=
      evalOps_cons_stackOp hexec₁ hhash (by decide) heval
    obtain ⟨_, _, hmain', rfl⟩ := stackOp_hash160 hok
    rw [hdoubled.main] at hmain'
    cases hmain'
    obtain ⟨pushed, hpushed, hexec₃, heval⟩ := evalOps_cons_push hexec₂ hpush heval
    obtain ⟨_, verified, hok, hverified, hexec₄, heval⟩ :=
      evalOps_cons_stackOp hexec₃ hverify (by decide) heval
    obtain ⟨_, _, hmain', rfl⟩ := stackOp_equalVerify hok
    rw [hpushed.main, hhashed.main] at hmain'
    obtain ⟨rfl, htail⟩ := List.cons.inj hmain'
    obtain ⟨hequal, hrest⟩ := List.cons.inj htail
    obtain ⟨signed, hround, heval⟩ := evalOps_cons_eq_ok.mp heval
    obtain ⟨key, sig, rest, sigOp, hmain', hsigns, haccepted⟩ :=
      evalRound_checkSig hexec₄ hcheck hround
    rw [hverified.main, ← hrest] at hmain'
    cases hmain'
    have hbecomes := ((hdoubled.trans hhashed).trans hpushed).trans hverified
    rw [hbecomes.scriptCode] at haccepted
    refine ⟨pubKey, sig, rest, sigOp, hmain, ?_,
      (hbecomes.signs hsigns).drops hexec hdrops heval, haccepted⟩
    rw [← hequal, Script.addressOf_putLE]

/-- A public key: it signs with what is on the stack. -/
theorem evalOps_pubkey (hops : StandardOps scriptEnv .pubkey addresses ops)
    (hexec : machine.exec = []) (heval : evalOps env flags ops machine = .ok final) :
    ∃ pubKey sig rest sigOp, machine.stack.main = sig :: rest
      ∧ pubKey ∈ ops.map ScriptOp.data ∧ addresses = [vectorToAddress scriptEnv pubKey]
      ∧ vectorToAddress scriptEnv pubKey ≠ .none ∧ machine.Signs env flags final sigOp rest
      ∧ ∀ accepted ∈ sigOp.accepted,
        accepted = ⟨sig, pubKey, findAndDelete (Miner.pushData sig) machine.scriptCode⟩ := by
  cases hops with
  | @pubkey push check drops hpush hkey hcheck hdrops =>
    obtain ⟨pushed, hpushed, hexec₁, heval⟩ := evalOps_cons_push hexec hpush heval
    obtain ⟨signed, hround, heval⟩ := evalOps_cons_eq_ok.mp heval
    obtain ⟨pubKey, sig, rest, sigOp, hmain, hsigns, haccepted⟩ :=
      evalRound_checkSig hexec₁ hcheck hround
    rw [hpushed.main] at hmain
    rw [hpushed.scriptCode] at haccepted
    obtain ⟨rfl, htail⟩ := List.cons.inj hmain
    exact ⟨push.data, sig, rest, sigOp, htail, (.head _), rfl, hkey,
      (hpushed.signs hsigns).drops hexec hdrops heval, haccepted⟩

/-- The hash of a script: the top of the stack has the hash, or the result is false. -/
theorem evalOps_scriptHash (hops : StandardOps scriptEnv .scriptHash addresses ops)
    (hexec : machine.exec = []) (heval : evalOps env flags ops machine = .ok final) :
    ∃ x rest found, machine.stack.main = x :: rest ∧ machine.Becomes final (vchOf found :: rest)
      ∧ (found = true → addresses = [.script (env.hashes.hash160 x)]) := by
  cases hops with
  | @scriptHash hash push equal drops hhash hpush hdata hequal hdrops =>
    obtain ⟨_, hashed, hok, hhashed, hexec₁, heval⟩ :=
      evalOps_cons_stackOp hexec hhash (by decide) heval
    obtain ⟨x, rest, hmain, rfl⟩ := stackOp_hash160 hok
    obtain ⟨pushed, hpushed, hexec₂, heval⟩ := evalOps_cons_push hexec₁ hpush heval
    obtain ⟨_, compared, hok, hcompared, hexec₃, heval⟩ :=
      evalOps_cons_stackOp hexec₂ hequal (by decide) heval
    obtain ⟨x2, x1, below, hmain', rfl⟩ := stackOp_equal hok
    rw [hpushed.main, hhashed.main] at hmain'
    obtain ⟨rfl, htail⟩ := List.cons.inj hmain'
    obtain ⟨rfl, rfl⟩ := List.cons.inj htail
    have hfinal := evalOps_drops hdrops hexec₃ heval
    have hbecomes := ((hhashed.trans hpushed).trans hcompared).trans hfinal
    rw [hcompared.main] at hbecomes
    refine ⟨x, rest, _, hmain, hbecomes, ?_⟩
    intro hfound
    rw [← of_decide_eq_true hfound, Script.addressOf_putLE]

theorem countOf_small {max : ℕ} {err : ScriptError} {value count : ℕ} (hpos : 1 ≤ value)
    (hle : value ≤ 16) (hcount : countOf flags max err (serialize value) = .ok count) :
    count = value ∧ value ≤ max := by
  unfold countOf at hcount
  rw [scriptNum_small flags.minimalData hpos hle] at hcount
  have hint : getInt (value : ℤ) = value := by
    unfold getInt
    rw [if_neg (by omega), if_neg (by omega)]
  dsimp only at hcount
  split_ifs at hcount with hrange
  cases hcount
  omega

/-- The arguments of a multisignature with as many keys as it says. -/
theorem multisigArgs_standard {args : MultisigArgs} {keys below : List Bytes} {required : ℕ}
    (hargs : multisigArgs flags machine = .ok args) (hkeys : 1 ≤ keys.length ∧ keys.length ≤ 16)
    (hrequired : 1 ≤ required ∧ required ≤ 16) (hmain : machine.stack.main
      = serialize keys.length :: keys ++ serialize required :: below) :
    args.keys = keys ∧ args.sigs = below.take required ∧ args.sigs.length = required
      ∧ below.drop required = args.dummy :: args.rest := by
  unfold multisigArgs at hargs
  rw [hmain] at hargs
  dsimp only [List.cons_append] at hargs
  obtain ⟨keysCount, hkeysCount, hargs⟩ := bind_eq_ok.mp hargs
  obtain ⟨rfl, -⟩ := countOf_small hkeys.1 hkeys.2 hkeysCount
  split_ifs at hargs
  rw [List.drop_left, List.take_left] at hargs
  obtain ⟨sigsCount, hsigsCount, hfound⟩ := bind_eq_ok.mp hargs
  obtain ⟨hsame, -⟩ := countOf_small hrequired.1 hrequired.2 hsigsCount
  rw [hsame] at hfound
  cases hdrop : below.drop required with
  | nil => rw [hdrop] at hfound; cases hfound
  | cons dummy rest =>
    rw [hdrop] at hfound
    cases hfound
    have hlength := congrArg List.length hdrop
    rw [List.length_drop, List.length_cons] at hlength
    exact ⟨rfl, rfl, by rw [List.length_take]; omega, rfl⟩

theorem evalOps_append_eq_ok {more : List ScriptOp} :
    evalOps env flags (ops ++ more) machine = .ok final
      ↔ ∃ next, evalOps env flags ops machine = .ok next
        ∧ evalOps env flags more next = .ok final := by
  unfold evalOps
  rw [List.foldlM_append]
  exact bind_eq_ok

def smallInteger (op : ScriptOp) : ℕ :=
  op.opcode.toNat - 0x50

theorem pushedValue_small (hsmall : OP_1 ≤ op.opcode ∧ op.opcode ≤ OP_16) :
    (1 ≤ smallInteger op ∧ smallInteger op ≤ 16) ∧ pushedValue op = serialize (smallInteger op) := by
  have hlow : 0x51 ≤ op.opcode.toNat := hsmall.1
  have hhigh : op.opcode.toNat ≤ 0x60 := hsmall.2
  have hplain : ¬ op.opcode ≤ OP_PUSHDATA4 :=
    BitVec.not_le.mpr (BitVec.lt_def.mpr (show 0x4e < op.opcode.toNat by omega))
  refine ⟨by unfold smallInteger; omega, ?_⟩
  rw [pushedValue, if_neg hplain]
  congr 1
  unfold smallInteger
  omega

/-- The elements that an output script takes as signatures: the one below the key, the top
of the stack, or as many as a multisignature needs. -/
def signaturesOf (type : TxnOutType) (ops : List ScriptOp) (main : List Bytes) : List Bytes :=
  match type, ops with
  | .pubkeyHash, _ => (main.drop 1).take 1
  | .pubkey, _ => main.take 1
  | .multisig, required :: _ => main.take (smallInteger required)
  | _, _ => []

theorem signaturesOf_subset (type : TxnOutType) (ops : List ScriptOp) (main : List Bytes) :
    signaturesOf type ops main ⊆ main := by
  unfold signaturesOf
  split
  · exact List.Subset.trans (List.take_subset _ _) (List.drop_subset _ _)
  · exact List.take_subset _ _
  · exact List.take_subset _ _
  exact List.nil_subset _

def signedScript (type : TxnOutType) (ops : List ScriptOp) (main : List Bytes)
    (scriptCode : Bytes) : Bytes :=
  (signaturesOf type ops main).foldl (fun code sig => findAndDelete (Miner.pushData sig) code)
    scriptCode

structure Accepted.By (type : TxnOutType) (ops : List ScriptOp) (machine : Machine)
    (accepted : Accepted) : Prop where
  signature : accepted.signature ∈ signaturesOf type ops machine.stack.main
  pubKey : accepted.pubKey ∈ machine.stack.main ++ ops.map ScriptOp.data
  scriptCode : accepted.scriptCode
    = signedScript type ops machine.stack.main machine.scriptCode

structure BareMultisig (required count check : ScriptOp) (keys drops : List ScriptOp) : Prop where
  required_small : OP_1 ≤ required.opcode ∧ required.opcode ≤ OP_16
  keys_push : ∀ key ∈ keys, key.opcode ≤ OP_PUSHDATA4
  count_small : OP_1 ≤ count.opcode ∧ count.opcode ≤ OP_16
  count_eq : smallInteger count = keys.length
  check_eq : check.opcode = OP_CHECKMULTISIG
  isDrops : IsDrops drops

/-- A bare multisignature: some of its keys, as many as it needs when it comes out true, sign with
what is on the stack. -/
theorem evalOps_bareMultisig {required count check : ScriptOp} {keys drops : List ScriptOp}
    (hbare : BareMultisig required count check keys drops) (hexec : machine.exec = [])
    (heval : evalOps env flags (required :: keys ++ count :: check :: drops) machine = .ok final) :
    ∃ rest sigOp, machine.Signs env flags final sigOp rest ∧ (∀ accepted ∈ sigOp.accepted,
        accepted.By .multisig (required :: keys ++ count :: check :: drops) machine)
      ∧ (sigOp.success = true → sigOp.accepted.length = smallInteger required)
      ∧ (sigOp.accepted.map Accepted.pubKey).Sublist (keys.map ScriptOp.data).reverse := by
  obtain ⟨hrequired, hpush, hcount, htotalKeys, hcheck, hdrops⟩ := hbare
  have hsplit : required :: keys ++ count :: check :: drops
      = (required :: keys ++ [count]) ++ check :: drops := by simp
  rw [hsplit] at heval
  obtain ⟨pushed, hpushes, heval⟩ := evalOps_append_eq_ok.mp heval
  have hsmall : ∀ op ∈ required :: keys ++ [count], op.opcode ≤ OP_16 := by
    intro op hmem
    rcases List.mem_append.mp hmem with hmem | hmem
    · rcases List.mem_cons.mp hmem with rfl | hmem
      · exact hrequired.2
      · exact BitVec.le_trans (hpush op hmem) (by decide)
    rw [List.mem_singleton.mp hmem]
    exact hcount.2
  have hpushed := evalOps_pushOnly hexec hsmall hpushes
  obtain ⟨hneeded, hrequiredValue⟩ := pushedValue_small hrequired
  obtain ⟨htotal, hcountValue⟩ := pushedValue_small hcount
  have hmain : pushed.stack.main = serialize (keys.map ScriptOp.data).reverse.length
      :: (keys.map ScriptOp.data).reverse
        ++ serialize (smallInteger required) :: machine.stack.main := by
    have hvalues : keys.map pushedValue = keys.map ScriptOp.data := by
      refine List.map_congr_left fun key hmem => ?_
      rw [pushedValue, if_pos (hpush key hmem)]
    rw [hpushed.main, List.map_append, List.map_cons, hvalues, List.map_singleton,
      hrequiredValue, hcountValue, List.length_reverse, List.length_map, ← htotalKeys]
    simp
  obtain ⟨signed, hround, heval⟩ := evalOps_cons_eq_ok.mp heval
  obtain ⟨ready, args, sigOp, hready, hargs, hresult, hexec', hsigOps, hsound, haccepted, hall,
    hsublist⟩ := evalRound_checkMultisig (hpushed.exec.trans hexec) hcheck hround
  have hlengthKeys : (keys.map ScriptOp.data).reverse.length = smallInteger count := by
    rw [List.length_reverse, List.length_map, htotalKeys]
  obtain ⟨hargKeys, hargSigs, hargLength, -⟩ := multisigArgs_standard hargs
    (by rw [hlengthKeys]; exact htotal) hneeded (by rw [hready, hmain])
  have hsigns : pushed.Signs env flags signed sigOp args.rest := by
    refine ⟨hresult, hexec', hsigOps, hsound, ?_⟩
    intro hsuccess hnil
    have hzero := hall hsuccess
    rw [hnil] at hzero
    simp only [List.length_nil] at hzero
    omega
  refine ⟨args.rest, sigOp, (hpushed.signs hsigns).drops hexec hdrops heval, ?_, ?_, ?_⟩
  · intro accepted hmem
    obtain ⟨hsig, hkey, hcode⟩ := haccepted accepted hmem
    refine ⟨?_, ?_, ?_⟩
    · rwa [hargSigs] at hsig
    · rw [hargKeys, List.mem_reverse] at hkey
      obtain ⟨op, hop, hdata⟩ := List.mem_map.mp hkey
      exact List.mem_append_right _ (List.mem_map.mpr ⟨op, by simp [hop], hdata⟩)
    · rwa [MultisigArgs.scriptCode, hargSigs, hpushed.scriptCode] at hcode
  · intro hsuccess
    rw [hall hsuccess, hargLength]
  rwa [hargKeys] at hsublist

theorem evalOps_multisig (hops : StandardOps scriptEnv .multisig addresses ops)
    (hexec : machine.exec = []) (heval : evalOps env flags ops machine = .ok final) :
    ∃ rest sigOp, machine.Signs env flags final sigOp rest
      ∧ ∀ accepted ∈ sigOp.accepted, accepted.By .multisig ops machine := by
  cases hops with
  | @multisig required count check keys drops hrequired hpush hkeys hcount hlength hcheck hdrops =>
    obtain ⟨rest, sigOp, hsigns, haccepted, -⟩ :=
      evalOps_bareMultisig ⟨hrequired, hpush, hcount, hlength, hcheck, hdrops⟩ hexec heval
    exact ⟨rest, sigOp, hsigns, haccepted⟩

/-- An output script that asks for signatures leaves the result of one signature operation,
with signatures that it takes from the stack. -/
theorem evalOps_signing {type : TxnOutType} (hops : StandardOps scriptEnv type addresses ops)
    (htype : type ≠ .scriptHash) (hexec : machine.exec = [])
    (heval : evalOps env flags ops machine = .ok final) :
    ∃ rest sigOp, machine.Signs env flags final sigOp rest
      ∧ ∀ accepted ∈ sigOp.accepted, accepted.By type ops machine := by
  cases type with
  | pubkeyHash =>
    obtain ⟨pubKey, sig, rest, sigOp, hmain, -, hsigns, haccepted⟩ :=
      evalOps_pubkeyHash hops hexec heval
    refine ⟨rest, sigOp, hsigns, ?_⟩
    intro accepted hmem
    rw [haccepted accepted hmem]
    exact ⟨by rw [hmain]; exact List.mem_singleton_self _, by rw [hmain]; exact .head _,
      by rw [hmain]; rfl⟩
  | pubkey =>
    obtain ⟨pubKey, sig, rest, sigOp, hmain, hkey, -, -, hsigns, haccepted⟩ :=
      evalOps_pubkey hops hexec heval
    refine ⟨rest, sigOp, hsigns, ?_⟩
    intro accepted hmem
    rw [haccepted accepted hmem]
    exact ⟨by rw [hmain]; exact List.mem_singleton_self _, List.mem_append_right _ hkey,
      by rw [hmain]; rfl⟩
  | multisig => exact evalOps_multisig hops hexec heval
  | scriptHash => exact absurd rfl htype
  | nonstandard => cases hops
  | nullData => cases hops

theorem evalScript_signing {type : TxnOutType} {script : Bytes} {main : List Bytes}
    {result : Evaluated} (hops : HasOps script ops)
    (hstandard : StandardOps scriptEnv type addresses ops) (htype : type ≠ .scriptHash)
    (heval : evalScript env flags main script = .ok result)
    (htrue : castToBool (result.stack.headD []) = true) :
    ∃ sigOp, result.sigOps = [sigOp] ∧ sigOp.success = true ∧ sigOp.Sound env flags
      ∧ sigOp.accepted ≠ []
      ∧ ∀ accepted ∈ sigOp.accepted, accepted.By type ops (Machine.start script main) := by
  obtain ⟨ops', machine, hops', hrounds, -, rfl⟩ := evalScript_eq_ok heval
  obtain rfl := hops'.unique hops
  obtain ⟨rest, sigOp, hsigns, haccepted⟩ := evalOps_signing hstandard htype rfl hrounds
  rw [hsigns.main, List.headD_cons, castToBool_vchOf] at htrue
  exact ⟨sigOp, hsigns.sigOps, htrue, hsigns.sound, hsigns.accepted htrue, haccepted⟩

end Amberchain.Interpreter
