import Amberchain.Interpreter.SendPermission

/-!
# Reported hash types

The hash type of an input is reported from the last bytes of what its script pushes.  Where
the scripts verify, that is what the signatures cover: a transaction with one of the outputs
changed that are treated as signed does not verify.
-/

namespace Amberchain.Interpreter

open Folding (bind_eq_ok)
open Script (HasOps StandardOps IsStandard SigHash considered)
open Storage Transaction

variable {env : CheckEnv} {tx : SignedTx} {i : ℕ} {flags : VerifyFlags}
  {scriptSig spentScript : Bytes} {type : TxnOutType} {sigOps : List SigOp}

def reportedType (scriptSig : Bytes) (type : TxnOutType) : SigHash :=
  Script.sigHashType scriptSig (decide (type = .pubkey ∨ type = .multisig))

def pushedStack (ops : List ScriptOp) : List Bytes :=
  (ops.map pushedValue).reverse

theorem pushedValue_eq_data {op : ScriptOp} (hpush : op.opcode ≤ OP_16)
    (hlength : 2 ≤ (pushedValue op).length) : pushedValue op = op.data := by
  have hsmall (opcode : Byte) (hplain : ¬ opcode ≤ OP_PUSHDATA4) (hpush : opcode ≤ OP_16) :
      (serialize ((opcode.toNat : ℤ) - 0x50)).length < 2 := by
    revert hplain hpush
    revert opcode
    decide +kernel
  rw [pushedValue] at hlength ⊢
  split_ifs at hlength ⊢ with hdata
  · rfl
  exact absurd hlength (Nat.not_le.mpr (hsmall _ hdata hpush))

variable {ops : List ScriptOp}

theorem fits_of_considered {checkLast : Bool} {data : Bytes} {byte : Byte}
    (hops : HasOps scriptSig ops) (hpush : ∀ op ∈ ops, op.opcode ≤ OP_16)
    (hdata : data ∈ considered checkLast ops) (hlast : data.getLast? = some byte) :
    Fits (Script.sigHashType scriptSig checkLast) byte := by
  have hne : scriptSig ≠ [] := by
    rintro rfl
    rw [hops.eq_nil] at hdata
    cases checkLast <;> cases hdata
  rw [Script.sigHashType_eq hops hpush hne]
  cases htype : (considered checkLast ops).foldl SigHash.next .all with
  | all => exact (Script.foldl_next_eq_all htype).2 data hdata byte hlast
  | none => trivial
  | single =>
    exact (Script.foldl_next_ne_none (by rw [htype]; nofun)).2 data hdata byte hlast

theorem checkSig_eq_true {sig pubKey scriptCode : Bytes}
    (hcheck : env.checkSig tx i sig pubKey scriptCode = true) :
    ∃ hashType, sig.getLast? = some hashType ∧ sig.dropLast ≠ []
      ∧ env.ecdsaVerify sig.dropLast pubKey
        (signatureHash scriptCode tx i hashType env.hashes.hash256) = true := by
  unfold CheckEnv.checkSig at hcheck
  cases hlast : sig.getLast? with
  | none => rw [hlast] at hcheck; cases hcheck
  | some hashType =>
    rw [hlast] at hcheck
    obtain ⟨hne, hverified⟩ := of_decide_eq_true (Bool.and_eq_true_iff.mp hcheck).2
    exact ⟨hashType, rfl, hne, hverified⟩

/-- The hash type of an accepted signature that is among the elements that count. -/
theorem fits_of_accepted {checkLast : Bool} {sig pubKey scriptCode : Bytes}
    {hashType : Byte} (hops : HasOps scriptSig ops) (hpush : ∀ op ∈ ops, op.opcode ≤ OP_16)
    (hsig : sig ∈ (if checkLast then ops else ops.dropLast).map pushedValue)
    (hcheck : env.checkSig tx i sig pubKey scriptCode = true)
    (hlast : sig.getLast? = some hashType) :
    Fits (Script.sigHashType scriptSig checkLast) hashType := by
  obtain ⟨-, -, hne, -⟩ := checkSig_eq_true hcheck
  obtain ⟨op, hop, rfl⟩ := List.mem_map.mp hsig
  have hmem : op ∈ ops := by
    cases checkLast with
    | true => exact hop
    | false => exact List.mem_of_mem_dropLast hop
  have hlength : 2 ≤ (pushedValue op).length := by
    have hpos := List.length_pos_iff.mpr hne
    rw [List.length_dropLast] at hpos
    omega
  rw [pushedValue_eq_data (hpush op hmem) hlength] at hlast
  exact fits_of_considered hops hpush (List.mem_map.mpr ⟨op, hop, rfl⟩) hlast

structure SigningScript where
  type : TxnOutType
  script : Bytes
  ops : List ScriptOp
  main : List Bytes

namespace SigningScript

variable (signing : SigningScript)

def signatures : List Bytes :=
  signaturesOf signing.type signing.ops signing.main

def keys : List Bytes :=
  signing.main ++ signing.ops.map ScriptOp.data

/-- What the signatures sign. -/
def code : Bytes :=
  signedScript signing.type signing.ops signing.main signing.script

/-- It is a public key, its hash, or a multisignature. -/
def Standard (scriptEnv : ScriptEnv) : Prop :=
  signing.type ≠ .scriptHash ∧ HasOps signing.script signing.ops
    ∧ ∃ addresses, StandardOps scriptEnv signing.type addresses signing.ops

end SigningScript

/-- The script behind an input that asks for signatures: the one of the spent output, or the
one behind its script hash. -/
inductive SignedBy (scriptEnv : ScriptEnv) (flags : VerifyFlags) (ops : List ScriptOp)
    (spentScript : Bytes) (signing : SigningScript) : Prop
  | spent (hscript : signing.script = spentScript) (hmain : signing.main = pushedStack ops)
      (hstandard : signing.Standard scriptEnv)
  | redeemed (hflag : flags.p2sh = true) (hscriptHash : isPayToScriptHash spentScript = true)
      (hstack : pushedStack ops = signing.script :: signing.main)
      (hstandard : signing.Standard scriptEnv)

theorem evalScript_pushOnly {venv : EvalEnv} {signed : Evaluated}
    (hops : HasOps scriptSig ops) (hpush : ∀ op ∈ ops, op.opcode ≤ OP_16)
    (heval : evalScript venv flags [] scriptSig = .ok signed) : signed = ⟨pushedStack ops, []⟩ := by
  obtain ⟨ops', machine, hops', hrounds, -, rfl⟩ := evalScript_eq_ok heval
  obtain rfl := hops'.unique hops
  have hpushed := evalOps_pushOnly rfl hpush hrounds
  rw [hpushed.main, hpushed.sigOps]
  exact congrArg (Evaluated.mk · []) (List.append_nil _)

variable {scriptEnv : ScriptEnv} {addresses : List Destination}

theorem evalScript_scriptHash {venv : EvalEnv} {main : List Bytes} {spent : Evaluated}
    (hstandard : IsStandard scriptEnv spentScript .scriptHash addresses)
    (heval : evalScript venv flags main spentScript = .ok spent) : spent.sigOps = [] := by
  obtain ⟨ops, hops, hstandardOps⟩ := hstandard.ops
  obtain ⟨ops', machine, hops', hrounds, -, rfl⟩ := evalScript_eq_ok heval
  obtain rfl := hops'.unique hops
  obtain ⟨_, _, _, -, hbecomes, -⟩ := evalOps_scriptHash hstandardOps rfl hrounds
  exact hbecomes.sigOps

theorem isPayToScriptHash_false (hops : HasOps spentScript ops)
    (hstandard : StandardOps scriptEnv type addresses ops) (htype : type ≠ .scriptHash) :
    isPayToScriptHash spentScript = false := by
  obtain ⟨op, rest, rfl, htypeHead⟩ := hstandard.exists_head
  have hne : op.opcode ≠ OP_HASH160 := by
    intro hhash
    refine htype (htypeHead.trans ?_)
    rw [Script.headType, hhash]
    rfl
  have hhead := Script.getOp_opcode (Script.hasOps_cons_iff.mp hops).1
  rw [List.head?_eq_getElem?] at hhead
  refine decide_eq_false ?_
  rintro ⟨-, hhash, -⟩
  rw [hhead] at hhash
  exact hne (Option.some.inj hhash)

theorem type_eq_scriptHash (hspent : IsStandard scriptEnv spentScript type addresses)
    (hscriptHash : isPayToScriptHash spentScript = true) : type = .scriptHash := by
  by_contra hother
  obtain ⟨ops, hops, hstandardOps⟩ := hspent.ops
  rw [isPayToScriptHash_false hops hstandardOps hother] at hscriptHash
  cases hscriptHash

/-- A verified input has one signature operation if a script behind it asks for one, and
that accepted a signature. -/
theorem verified_signedBy {venv : VerifyEnv} {signing : SigningScript}
    (hops : HasOps scriptSig ops) (hpush : ∀ op ∈ ops, op.opcode ≤ OP_16)
    (hspent : IsStandard scriptEnv spentScript type addresses)
    (hsigned : SignedBy scriptEnv flags ops spentScript signing)
    (hverify : verifyScript venv flags scriptSig spentScript = .ok sigOps) :
    ∃ sigOp, sigOps = [sigOp] ∧ sigOp.accepted ≠ [] ∧ ∀ accepted ∈ sigOp.accepted,
      accepted.Checked venv.toEvalEnv
        ∧ accepted.By signing.type signing.ops (Machine.start signing.script signing.main) := by
  obtain ⟨signed, spent, redeemed, hrun, rfl⟩ := verifyScript_run hverify
  have hsignedRun := evalScript_pushOnly hops hpush hrun.signedRun
  cases hsigned with
  | spent hscript hmain hstandard =>
    obtain ⟨htype, hscriptOps, addresses, hstandardOps⟩ := hstandard
    have hspentRun := hrun.spentRun
    rw [hsignedRun, ← hmain, ← hscript] at hspentRun
    obtain ⟨sigOp, hsigOps, -, hsound, hsome, hby⟩ :=
      evalScript_signing hscriptOps hstandardOps htype hspentRun hrun.isTrue
    rw [hscript] at hscriptOps
    have hnone : redeemed = [] := by
      rcases hrun.redeem with ⟨-, hscriptHash, -⟩ | ⟨-, hnone⟩
      · rw [isPayToScriptHash_false hscriptOps hstandardOps htype] at hscriptHash
        cases hscriptHash
      · exact hnone
    refine ⟨sigOp, by rw [hsignedRun, hsigOps, hnone]; rfl, hsome, ?_⟩
    exact fun accepted hmem => ⟨hsound.checked accepted hmem, hby accepted hmem⟩
  | redeemed hflag hscriptHash hstack hstandard =>
    obtain ⟨htype, hscriptOps, addresses, hstandardOps⟩ := hstandard
    rw [type_eq_scriptHash hspent hscriptHash] at hspent
    have hspentNone := evalScript_scriptHash hspent hrun.spentRun
    obtain ⟨-, -, hredeem⟩ := hrun.redeem.resolve_right fun h => h.1 ⟨hflag, hscriptHash⟩
    obtain ⟨used, redeemScript, below, result, -, hstack', heval, htrue, rfl⟩ := hredeem.run
    rw [hsignedRun] at hstack'
    obtain ⟨hscript, hmain⟩ := List.cons.inj (hstack'.symm.trans hstack)
    rw [hscript, hmain] at heval
    obtain ⟨sigOp, hsigOps, -, hsound, hsome, hby⟩ :=
      evalScript_signing hscriptOps hstandardOps htype heval htrue
    refine ⟨sigOp, by rw [hsignedRun, hspentNone, hsigOps]; rfl, hsome, ?_⟩
    exact fun accepted hmem => ⟨hsound.checked accepted hmem, hby accepted hmem⟩

/-- What a script behind the input takes as signatures counts for the reported hash type. -/
theorem signatures_counted {signing : SigningScript}
    (hspent : IsStandard scriptEnv spentScript type addresses)
    (hsigned : SignedBy scriptEnv flags ops spentScript signing) {sig : Bytes}
    (hsig : sig ∈ signing.signatures) :
    sig ∈ (if decide (type = .pubkey ∨ type = .multisig) then ops else ops.dropLast).map
      pushedValue := by
  have hmain := signaturesOf_subset _ _ _ hsig
  have htail : (pushedStack ops).tail = (ops.dropLast.map pushedValue).reverse := by
    rw [pushedStack, List.tail_reverse, List.map_dropLast]
  cases hsigned with
  | spent hscript hstack hstandard =>
    obtain ⟨hnotHash, hscriptOps, addresses', hstandardOps⟩ := hstandard
    obtain ⟨ops', hops', hstandardOps'⟩ := hspent.ops
    rw [hscript] at hscriptOps
    obtain rfl := hops'.unique hscriptOps
    obtain rfl := hstandardOps.type_unique hstandardOps'
    rw [hstack] at hmain
    unfold SigningScript.signatures at hsig
    cases htype : signing.type with
    | pubkeyHash =>
      rw [htype, hstack] at hsig
      have hbelow := List.take_subset _ _ hsig
      rw [List.drop_one, htail] at hbelow
      exact List.mem_reverse.mp hbelow
    | pubkey => exact List.mem_reverse.mp hmain
    | multisig => exact List.mem_reverse.mp hmain
    | scriptHash => exact absurd htype hnotHash
    | nonstandard => rw [htype] at hstandardOps; cases hstandardOps
    | nullData => rw [htype] at hstandardOps; cases hstandardOps
  | redeemed hflag hscriptHash hstack hstandard =>
    rw [hstack] at htail
    rw [show signing.main = _ from htail] at hmain
    rw [type_eq_scriptHash hspent hscriptHash]
    exact List.mem_reverse.mp hmain

def Accepted.hash (env : CheckEnv) (tx : SignedTx) (i : ℕ) (accepted : Accepted)
    (hashType : Byte) : Hash256 :=
  signatureHash accepted.scriptCode tx i hashType env.hashes.hash256

/-- An accepted signature commits to the outputs that a reported hash type stands for: it
was verified for a hash, and what was hashed is not hashed for any signature of the
transaction with one of these outputs changed. -/
def Accepted.Commits (env : CheckEnv) (tx : SignedTx) (i : ℕ) (reported : SigHash)
    (accepted : Accepted) : Prop :=
  ∃ hashType, accepted.signature.getLast? = some hashType
    ∧ env.ecdsaVerify accepted.signature.dropLast accepted.pubKey
      (accepted.hash env tx i hashType) = true
    ∧ ∀ vout, AllRepresentable vout → ¬ KeepsSigned reported i tx.vout vout →
      ∀ other, signaturePreimage accepted.scriptCode (tx.withOutputs vout) i other
        ≠ signaturePreimage accepted.scriptCode tx i hashType

def Unforged (env : CheckEnv) (tx : SignedTx) (i : ℕ) (sigOps : List SigOp)
    (signing : SigningScript) : Prop :=
  ∀ sig ∈ signing.signatures, ∀ key ∈ signing.keys, ∀ hash,
    env.ecdsaVerify sig.dropLast key hash = true →
      ∃ sigOp ∈ sigOps, ∃ accepted ∈ sigOp.accepted, ∃ hashType,
        accepted.signature.getLast? = some hashType ∧ hash = accepted.hash env tx i hashType

def signedMessages (txs : List SignedTx) (i : ℕ) (signing : SigningScript) : Set Bytes :=
  { message | ∃ tx ∈ txs, ∃ sig ∈ signing.signatures, ∃ hashType,
      sig.getLast? = some hashType ∧ message = signaturePreimage signing.code tx i hashType }

/-- What the reported hash type of a verified input is worth.  Behind a script hash only
elements of the input script before the redeem script are reported on, and an input is bound
when a script behind it asks for signatures. -/
structure ReportedVerified (env : CheckEnv) (tx : SignedTx) (i : ℕ) (flags : VerifyFlags)
    (scriptSig spentScript : Bytes) (type : TxnOutType) (sigOps : List SigOp) : Prop where
  commits : ∀ sigOp ∈ sigOps, ∀ accepted ∈ sigOp.accepted,
    (type = .scriptHash → ∃ ops, HasOps scriptSig ops
      ∧ accepted.signature ∈ ops.dropLast.map pushedValue) →
    accepted.Commits env tx i (reportedType scriptSig type)
  binds : ∀ ops signing, HasOps scriptSig ops →
    SignedBy env.script flags ops spentScript signing → Unforged env tx i sigOps signing →
    ∀ vout, AllRepresentable vout →
      Set.InjOn env.hashes.hash256 (signedMessages [tx, tx.withOutputs vout] i signing) →
      ¬ KeepsSigned (reportedType scriptSig type) i tx.vout vout →
      ∀ sigOps', verifyScript (env.verifyEnv (tx.withOutputs vout) i) flags scriptSig spentScript
        ≠ .ok sigOps'

theorem commits_of_accepted {checkLast : Bool} {accepted : Accepted}
    (hi : i < tx.vin.length) (hsize : tx.vin.length < 2 ^ 64) (houts : AllRepresentable tx.vout)
    (hops : HasOps scriptSig ops) (hpush : ∀ op ∈ ops, op.opcode ≤ OP_16)
    (hsig : accepted.signature ∈ (if checkLast then ops else ops.dropLast).map pushedValue)
    (hchecked : accepted.Checked (env.verifyEnv tx i).toEvalEnv) :
    accepted.Commits env tx i (Script.sigHashType scriptSig checkLast) := by
  obtain ⟨hashType, hlast, -, hverified⟩ := checkSig_eq_true hchecked
  refine ⟨hashType, hlast, hverified, ?_⟩
  intro vout hvout hchanged other
  exact signaturePreimage_ne (by omega) houts hvout
    (fits_of_accepted hops hpush hsig hchecked hlast) hchanged other

/-- Where an input passes the push-only check and its scripts verify, the hash type that is
reported for it is the one of the accepted signatures, and a transaction with an output
changed that is treated as signed is refused. -/
theorem reportedType_verified {addresses : List Destination} (hi : i < tx.vin.length)
    (hsize : tx.vin.length < 2 ^ 64) (houts : AllRepresentable tx.vout)
    (hspent : IsStandard env.script spentScript type addresses)
    (hpushOnly : Script.isPushOnly scriptSig = true)
    (hverify : verifyScript (env.verifyEnv tx i) flags scriptSig spentScript = .ok sigOps) :
    ReportedVerified env tx i flags scriptSig spentScript type sigOps := by
  obtain ⟨ops, hops, hpush⟩ := Script.isPushOnly_iff.mp hpushOnly
  refine ⟨?_, ?_⟩
  · intro sigOp hmem accepted haccepted hbefore
    have hchecked := verifyScript_checked hverify sigOp hmem accepted haccepted
    by_cases htype : type = .scriptHash
    · obtain ⟨ops', hops', hsig⟩ := hbefore htype
      obtain rfl := hops'.unique hops
      refine commits_of_accepted hi hsize houts hops hpush ?_ hchecked
      rw [htype]
      exact hsig
    obtain ⟨spentOps, hspentOps, hstandardOps⟩ := hspent.ops
    have hsigned : SignedBy env.script flags ops spentScript
        ⟨type, spentScript, spentOps, pushedStack ops⟩ :=
      .spent rfl rfl ⟨htype, hspentOps, _, hstandardOps⟩
    obtain ⟨_, rfl, -, hby⟩ := verified_signedBy hops hpush hspent hsigned hverify
    obtain rfl := List.mem_singleton.mp hmem
    exact commits_of_accepted hi hsize houts hops hpush
      (signatures_counted hspent hsigned (hby accepted haccepted).2.signature) hchecked
  intro ops' signing hops' hsigned hunforged vout hvout hcollision hchanged sigOps' hverify'
  obtain rfl := hops'.unique hops
  obtain ⟨sigOp, rfl, -, horiginal⟩ := verified_signedBy hops hpush hspent hsigned hverify
  obtain ⟨sigOp', rfl, hsome, hchangedRun⟩ := verified_signedBy hops hpush hspent hsigned hverify'
  obtain ⟨accepted', hmem'⟩ := List.exists_mem_of_ne_nil _ hsome
  obtain ⟨hchecked', hby'⟩ := hchangedRun accepted' hmem'
  obtain ⟨hashType', hlast', -, hverified'⟩ := checkSig_eq_true hchecked'
  obtain ⟨_, hmem, accepted, haccepted, hashType, hlast, hhash⟩ :=
    hunforged _ hby'.signature _ hby'.pubKey _ hverified'
  obtain rfl := List.mem_singleton.mp hmem
  obtain ⟨hchecked, hby⟩ := horiginal accepted haccepted
  have hcode : accepted.scriptCode = signing.code := hby.scriptCode
  have hcode' : accepted'.scriptCode = signing.code := hby'.scriptCode
  have hfits := fits_of_accepted hops hpush (signatures_counted hspent hsigned hby.signature)
    hchecked hlast
  have hfits' := fits_of_accepted hops hpush (signatures_counted hspent hsigned hby'.signature)
    hchecked' hlast'
  rw [Accepted.hash, hcode, hcode'] at hhash
  refine signatureHash_ne hi hsize houts hvout hfits hfits' hchanged ?_ hhash
  exact fun heq => hcollision ⟨_, by simp, _, hby'.signature, _, hlast', rfl⟩
    ⟨_, by simp, _, hby.signature, _, hlast, rfl⟩ heq

def endHash (message : Bytes) : Hash256 :=
  BitVec.ofNat 256 (getLE message.reverse 32)

def paidHash : Hash256 :=
  signatureHash paidScript (spendingTx paidScriptSig) 0 1 endHash

/-- A chain on which only the payment was signed. -/
def payingEnv : CheckEnv :=
  { guardedEnv [sendRow] with
    hashes := ⟨fun _ => 0, fun _ => 0, fun _ => 0, fun _ => 0, endHash⟩
    ecdsaVerify := fun _ _ hash => hash = paidHash }

/-- The payment's one signature operation. -/
def paidOp : SigOp :=
  ⟨true, [⟨[0x30, 0x01], paidKey, paidScript⟩]⟩

theorem representable_single {script : Bytes} (hlength : script.length < 2 ^ 64) :
    AllRepresentable [⟨0, script⟩] := by
  refine ⟨Nat.lt_of_lt_of_le Nat.one_lt_two (by decide), ?_⟩
  intro out hmem
  rw [List.mem_singleton.mp hmem]
  exact ⟨show (-2 : ℤ) ^ 63 ≤ 0 by decide, show (0 : ℤ) < 2 ^ 63 by decide, hlength⟩

theorem paidScript_standard : IsStandard payingEnv.script paidScript .pubkeyHash [.key 0] :=
  ⟨by decide, [], by decide +kernel, by decide +kernel⟩

def opsOf : ℕ → Bytes → List ScriptOp
  | 0, _ => []
  | fuel + 1, script =>
    match getOp script with
    | none => []
    | some op => op :: opsOf fuel op.rest

theorem paidScriptSig_ops : HasOps paidScriptSig (opsOf 2 paidScriptSig) :=
  .cons rfl (.cons rfl .nil)

theorem paidScript_ops : HasOps paidScript (opsOf 5 paidScript) :=
  .cons rfl (.cons rfl (.cons rfl (.cons rfl (.cons rfl .nil))))

def paidSigning : SigningScript :=
  ⟨.pubkeyHash, paidScript, opsOf 5 paidScript, pushedStack (opsOf 2 paidScriptSig)⟩

def redirected : SignedTx :=
  (spendingTx paidScriptSig).withOutputs [⟨0, [OP_1]⟩]

theorem paid_unforged : Unforged payingEnv (spendingTx paidScriptSig) 0 [paidOp] paidSigning := by
  intro sig hsig key hkey hash hverified
  refine ⟨paidOp, List.mem_singleton_self _, _, List.mem_singleton_self _, 1, rfl, ?_⟩
  exact of_decide_eq_true hverified

theorem paid_collisionFree : Set.InjOn payingEnv.hashes.hash256
      (signedMessages [spendingTx paidScriptSig, redirected] 0 paidSigning) := by
  have hsignatures : paidSigning.signatures = [[0x30, 0x01]] := by decide +kernel
  have hmessage : ∀ message ∈ signedMessages [spendingTx paidScriptSig, redirected] 0 paidSigning,
      message ∈ [signaturePreimage paidSigning.code (spendingTx paidScriptSig) 0 1,
        signaturePreimage paidSigning.code redirected 0 1] := by
    rintro message ⟨tx, htx, sig, hsig, hashType, hlast, rfl⟩
    rw [hsignatures, List.mem_singleton] at hsig
    subst hsig
    cases hlast
    rcases List.mem_cons.mp htx with rfl | htx
    · exact .head _
    rw [List.mem_singleton.mp htx]
    exact .tail _ (List.mem_singleton_self _)
  have hdistinct : ∀ a ∈ [signaturePreimage paidSigning.code (spendingTx paidScriptSig) 0 1,
        signaturePreimage paidSigning.code redirected 0 1],
      ∀ b ∈ [signaturePreimage paidSigning.code (spendingTx paidScriptSig) 0 1,
        signaturePreimage paidSigning.code redirected 0 1],
      payingEnv.hashes.hash256 a = payingEnv.hashes.hash256 b → a = b := by
    decide +kernel
  exact fun a ha b hb => hdistinct a (hmessage a ha) b (hmessage b hb)

theorem paid_signedBy :
    SignedBy payingEnv.script .mandatory (opsOf 2 paidScriptSig) paidScript paidSigning := by
  obtain ⟨ops, hops, hstandard⟩ := paidScript_standard.ops
  obtain rfl := hops.unique paidScript_ops
  exact .spent rfl rfl ⟨by decide, hops, _, hstandard⟩

theorem redirected_changed :
    ¬ KeepsSigned (reportedType paidScriptSig .pubkeyHash) 0 (spendingTx paidScriptSig).vout
      redirected.vout := by
  exact show redirected.vout ≠ (spendingTx paidScriptSig).vout by decide

/-- The payment is verified, and no other payment with its input. -/
theorem reportedType_verified_paid :
    ¬ ∃ sigOps, verifyScript (payingEnv.verifyEnv redirected 0) .mandatory paidScriptSig paidScript
      = .ok sigOps := by
  rintro ⟨sigOps, hverify⟩
  exact (@reportedType_verified payingEnv (spendingTx paidScriptSig) 0 .mandatory paidScriptSig
    paidScript .pubkeyHash [paidOp] _ (by decide) (by decide) (representable_single (by decide))
    paidScript_standard (by decide +kernel) (by decide +kernel)).binds _ paidSigning
    paidScriptSig_ops paid_signedBy paid_unforged _ (representable_single (by decide))
    paid_collisionFree redirected_changed sigOps hverify

def hashedScript : Bytes :=
  [OP_HASH160] ++ Miner.pushData (List.replicate 20 0) ++ [OP_EQUAL]

/-- Behind a script hash nothing need be signed, whatever is reported. -/
theorem reported_without_signature :
    IsStandard payingEnv.script hashedScript .scriptHash [.script 0]
      ∧ Script.isPushOnly [OP_0, 1, OP_1] = true ∧ reportedType [OP_0, 1, OP_1] .scriptHash = .all
      ∧ ∀ vout ∈ [[⟨0, []⟩], [⟨0, [OP_1]⟩]],
        verifyScript (payingEnv.verifyEnv ((spendingTx [OP_0, 1, OP_1]).withOutputs vout) 0)
          .mandatory [OP_0, 1, OP_1] hashedScript = .ok [] :=
  ⟨⟨by decide, [], by decide +kernel, by decide +kernel⟩, by decide +kernel, by decide +kernel,
    by decide +kernel⟩

end Amberchain.Interpreter
