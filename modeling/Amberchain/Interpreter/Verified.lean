import Amberchain.Interpreter.Rounds

/-!
# Verified scripts

What a verification that succeeds went through, and what is true of every signature
operation on the way.
-/

namespace Amberchain.Interpreter

open Folding (bind_eq_ok)

variable {env : VerifyEnv} {flags : VerifyFlags} {scriptSig spentScript : Bytes}
  {sigOps : List SigOp}

structure RedeemRun (env : VerifyEnv) (flags : VerifyFlags) (scriptSig spentScript : Bytes)
    (stack : List Bytes) (sigOps : List SigOp) : Prop where
  pushOnly : Script.isPushOnly scriptSig = true
  run : ∃ used redeemScript below result, redeemFlags env flags scriptSig spentScript = .ok used
    ∧ stack = redeemScript :: below
    ∧ evalScript env.toEvalEnv used below redeemScript = .ok result
    ∧ castToBool (result.stack.headD []) = true ∧ sigOps = result.sigOps

theorem verifyRedeemScript_run {stack : List Bytes}
    (hverify : verifyRedeemScript env flags scriptSig spentScript stack = .ok sigOps) :
    RedeemRun env flags scriptSig spentScript stack sigOps := by
  unfold verifyRedeemScript at hverify
  split_ifs at hverify with hpush
  obtain ⟨used, hused, hverify⟩ := bind_eq_ok.mp hverify
  cases stack with
  | nil => cases hverify
  | cons redeemScript below =>
    obtain ⟨result, heval, hend⟩ := bind_eq_ok.mp hverify
    split_ifs at hend with htrue
    cases hend
    exact ⟨hpush, used, redeemScript, below, result, hused, rfl, heval, htrue, rfl⟩

/-- What a verification went through: the evaluations of both scripts, and of the one behind
a script hash. -/
structure VerifyRun (env : VerifyEnv) (flags : VerifyFlags) (scriptSig spentScript : Bytes)
    (signed spent : Evaluated) (redeemed : List SigOp) : Prop where
  signedRun : evalScript env.toEvalEnv flags [] scriptSig = .ok signed
  spentRun : evalScript env.toEvalEnv flags signed.stack spentScript = .ok spent
  isTrue : castToBool (spent.stack.headD []) = true
  single : env.params.streams = true → hasSmallIntegerInTheBeginning scriptSig = false →
    spent.stack.length = 1
  redeem : (flags.p2sh = true ∧ isPayToScriptHash spentScript = true
      ∧ RedeemRun env flags scriptSig spentScript signed.stack redeemed)
    ∨ ¬ (flags.p2sh = true ∧ isPayToScriptHash spentScript = true) ∧ redeemed = []

/-- A verification that succeeds logs the operations of all evaluations. -/
theorem verifyScript_run (hverify : verifyScript env flags scriptSig spentScript = .ok sigOps) :
    ∃ signed spent redeemed, VerifyRun env flags scriptSig spentScript signed spent redeemed
      ∧ sigOps = signed.sigOps ++ spent.sigOps ++ redeemed := by
  unfold verifyScript at hverify
  split at hverify
  · cases hverify
  obtain ⟨signed, hsigned, hverify⟩ := bind_eq_ok.mp hverify
  obtain ⟨spent, hspent, hverify⟩ := bind_eq_ok.mp hverify
  cases hstack : spent.stack with
  | nil => rw [hstack] at hverify; cases hverify
  | cons top below =>
    rw [hstack] at hverify
    dsimp only at hverify
    split at hverify
    · cases hverify
    next htop =>
      split at hverify
      · cases hverify
      next hshort =>
        have htrue : castToBool (spent.stack.headD []) = true := by
          rw [hstack]
          exact not_not.mp htop
        have hsingle : env.params.streams = true → hasSmallIntegerInTheBeginning scriptSig = false →
            spent.stack.length = 1 := by
          intro hstreams hsmall
          rw [hstack, of_not_not fun hbelow => hshort ⟨hstreams, by simp [hsmall], hbelow⟩]
          rfl
        split at hverify
        next hscriptHash =>
          obtain ⟨redeemed, hredeem, hend⟩ := bind_eq_ok.mp hverify
          cases hend
          exact ⟨signed, spent, redeemed, ⟨hsigned, hspent, htrue, hsingle,
            .inl ⟨hscriptHash.1, hscriptHash.2, verifyRedeemScript_run hredeem⟩⟩, rfl⟩
        next hscriptHash =>
          cases hverify
          exact ⟨signed, spent, [], ⟨hsigned, hspent, htrue, hsingle, .inr ⟨hscriptHash, rfl⟩⟩,
            (List.append_nil _).symm⟩

theorem verifyScript_checked (hverify : verifyScript env flags scriptSig spentScript = .ok sigOps) :
    ∀ sigOp ∈ sigOps, ∀ accepted ∈ sigOp.accepted, accepted.Checked env.toEvalEnv := by
  obtain ⟨signed, spent, redeemed, hrun, rfl⟩ := verifyScript_run hverify
  have hplain := List.forall_mem_append.mpr
    ⟨evalScript_sound hrun.signedRun, evalScript_sound hrun.spentRun⟩
  refine List.forall_mem_append.mpr ⟨fun sigOp hmem => (hplain sigOp hmem).checked, ?_⟩
  rcases hrun.redeem with ⟨-, -, hredeem⟩ | ⟨-, rfl⟩
  · obtain ⟨used, redeemScript, below, result, -, -, heval, -, rfl⟩ := hredeem.run
    exact fun sigOp hmem => (evalScript_sound heval sigOp hmem).checked
  exact List.forall_mem_nil _

/-- Send permission is left out behind a script hash only when the script hash has it. -/
theorem redeemFlags_skip {used : VerifyFlags} (hskip : flags.skipSendPermissionCheck = false)
    (hused : redeemFlags env flags scriptSig spentScript = .ok used)
    (husedSkip : used.skipSendPermissionCheck = true) :
    ∃ id, Script.extractDestination env.script env.params spentScript = some (.script id)
      ∧ env.canSend id = true := by
  unfold redeemFlags at hused
  split at hused
  · cases hused
    rw [hskip] at husedSkip
    cases husedSkip
  split at hused
  · cases hused
  cases hextract : Script.extractDestination env.script env.params spentScript with
  | none => rw [hextract] at hused; cases hused
  | some address =>
    rw [hextract] at hused
    rw [hskip] at hused
    cases address with
    | none => cases hused
    | key id => cases hused
    | script id =>
      cases hused
      exact ⟨id, rfl, husedSkip⟩

theorem SigOp.Sound.of_flags {env : EvalEnv} {used : VerifyFlags} {sigOp : SigOp}
    (hsound : sigOp.Sound env used) (husedSkip : used.skipSendPermissionCheck = false) :
    sigOp.Sound env flags :=
  ⟨hsound.checked, fun hsuccess _ hmultichain => hsound.maySend hsuccess husedSkip hmultichain⟩

/-- The signature operations of a verification that looks for send permissions. -/
theorem verifyScript_sound (hskip : flags.skipSendPermissionCheck = false)
    (hverify : verifyScript env flags scriptSig spentScript = .ok sigOps) :
    (∃ id, Script.extractDestination env.script env.params spentScript = some (.script id)
        ∧ env.canSend id = true) ∨ ∀ sigOp ∈ sigOps, sigOp.Sound env.toEvalEnv flags := by
  obtain ⟨signed, spent, redeemed, hrun, rfl⟩ := verifyScript_run hverify
  have hplain : ∀ sigOp ∈ signed.sigOps ++ spent.sigOps, sigOp.Sound env.toEvalEnv flags :=
    List.forall_mem_append.mpr
      ⟨evalScript_sound hrun.signedRun, evalScript_sound hrun.spentRun⟩
  rcases hrun.redeem with ⟨-, -, hredeem⟩ | ⟨-, rfl⟩
  · obtain ⟨used, redeemScript, below, result, hused, -, heval, -, rfl⟩ := hredeem.run
    cases husedSkip : used.skipSendPermissionCheck with
    | true => exact .inl (redeemFlags_skip hskip hused husedSkip)
    | false =>
      refine .inr (List.forall_mem_append.mpr ⟨hplain, ?_⟩)
      exact fun sigOp hmem => (evalScript_sound heval sigOp hmem).of_flags husedSkip
  rw [List.append_nil]
  exact .inr hplain

end Amberchain.Interpreter
