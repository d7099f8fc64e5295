import Amberchain.Interpreter.HashTypes

/-!
# Addresses of input scripts

`mc_ExtractAddressFromInputScript` takes the last element of an input script for a public
key or a redeem script, by whether the first element is empty.
-/

namespace Amberchain.Script

def lastElementFrom : ℕ → Bytes → Bytes → Option Bytes
  | 0, _, last => some last
  | fuel + 1, script, last =>
    if script = [] then some last
    else
      match getOp script with
      | none => none
      | some op => if OP_16 < op.opcode then none else lastElementFrom fuel op.rest op.data

/-- What `mc_ExtractAddressFromInputScript` returns without `check_last`: the last element,
and whether it is a redeem script.  A single element that is not empty is a signature for
a public key. -/
def extractAddress (script : Bytes) : Option (Bytes × Bool) :=
  match getOp script with
  | none => none
  | some first =>
    if OP_16 < first.opcode then none
    else if first.data ≠ [] ∧ first.rest = [] then none
    else
      (lastElementFrom script.length first.rest first.data).map
        fun last => (last, decide (first.data = []))

variable {script : Bytes}

theorem lastElementFrom_eq {ops : List ScriptOp} (hops : HasOps script ops)
    (hpush : ∀ op ∈ ops, op.opcode ≤ OP_16) (last : Bytes) {fuel : ℕ}
    (hfuel : script.length ≤ fuel) :
    lastElementFrom fuel script last = some ((ops.map ScriptOp.data).getLastD last) := by
  induction hops generalizing last fuel with
  | nil => cases fuel <;> rfl
  | @cons script op ops hop hrest ih =>
    have hlt := getOp_rest_lt hop
    have hne : script ≠ [] := by
      rintro rfl
      cases hop
    cases fuel with
    | zero => omega
    | succ fuel =>
      rw [lastElementFrom, if_neg hne, hop]
      dsimp only
      rw [if_neg (BitVec.not_lt.mpr (hpush op (.head _))),
        ih (fun other hmem => hpush other (.tail _ hmem)) _ (by omega),
        List.map_cons, List.getLastD_cons]

theorem extractAddress_eq {first : ScriptOp} {rest : List ScriptOp}
    (hops : HasOps script (first :: rest)) (hpush : ∀ op ∈ first :: rest, op.opcode ≤ OP_16) :
    extractAddress script
      = if first.data ≠ [] ∧ rest = [] then none
        else some ((rest.map ScriptOp.data).getLastD first.data, decide (first.data = [])) := by
  obtain ⟨hop, hrest⟩ := hasOps_cons_iff.mp hops
  have hlt := getOp_rest_lt hop
  have hnil : first.rest = [] ↔ rest = [] := by
    constructor
    · intro hend
      rw [hend] at hrest
      exact hrest.eq_nil
    rintro rfl
    exact hasOps_nil_iff.mp hrest
  rw [extractAddress, hop]
  dsimp only
  rw [if_neg (BitVec.not_lt.mpr (hpush first (.head _))),
    lastElementFrom_eq hrest (fun op hmem => hpush op (.tail _ hmem)) _ (by omega)]
  simp only [hnil, Option.map_some]

theorem sigHashFrom_ops {checkLast : Bool} {fuel : ℕ} {type : SigHash}
    (hfuel : script.length ≤ fuel) (htype : sigHashFrom checkLast fuel script type ≠ .none) :
    ∃ ops, HasOps script ops ∧ ∀ op ∈ ops, op.opcode ≤ OP_16 := by
  induction fuel generalizing script type with
  | zero =>
    have hnil : script = [] := List.eq_nil_of_length_eq_zero (by omega)
    subst hnil
    exact ⟨[], .nil, List.forall_mem_nil _⟩
  | succ fuel ih =>
    rw [sigHashFrom] at htype
    split at htype
    next hnil =>
      subst hnil
      exact ⟨[], .nil, List.forall_mem_nil _⟩
    next =>
      cases hop : getOp script with
      | none =>
        rw [hop] at htype
        exact absurd rfl htype
      | some op =>
        rw [hop] at htype
        dsimp only at htype
        split at htype
        · exact absurd rfl htype
        next hplain =>
          have hlt := getOp_rest_lt hop
          obtain ⟨ops, hops, hpush⟩ := ih (by omega) htype
          exact ⟨op :: ops, .cons hop hops,
            List.forall_mem_cons.mpr ⟨BitVec.not_lt.mp hplain, hpush⟩⟩

theorem sigHashType_ops {checkLast : Bool} (htype : sigHashType script checkLast ≠ .none) :
    ∃ first rest, HasOps script (first :: rest) ∧ ∀ op ∈ first :: rest, op.opcode ≤ OP_16 := by
  unfold sigHashType at htype
  split at htype
  · exact absurd rfl htype
  next hne =>
    obtain ⟨ops, hops, hpush⟩ := sigHashFrom_ops (Nat.le_refl _) htype
    cases ops with
    | nil => exact absurd (hasOps_nil_iff.mp hops) hne
    | cons first rest => exact ⟨first, rest, hops, hpush⟩

end Amberchain.Script

/-!
# Addresses of verified inputs

The last element of a verified input script is the public key or the redeem script that the
spent output has the hash of.
-/

namespace Amberchain.Interpreter

open Folding (bind_eq_ok)
open Script (HasOps IsStandard extractAddress)

variable {venv : VerifyEnv} {scriptEnv : ScriptEnv} {flags : VerifyFlags}
  {scriptSig spentScript : Bytes} {addresses : List Destination} {sigOps : List SigOp}
  {first : ScriptOp} {rest : List ScriptOp}

def lastOp (first : ScriptOp) (rest : List ScriptOp) : ScriptOp :=
  rest.getLastD first

theorem lastOp_mem (first : ScriptOp) (rest : List ScriptOp) :
    lastOp first rest ∈ first :: rest := by
  unfold lastOp
  rw [List.getLastD_eq_getLast?]
  cases hlast : rest.getLast? with
  | none => exact .head _
  | some op => exact .tail _ (List.mem_of_getLast? hlast)

theorem getLastD_map_data (first : ScriptOp) (rest : List ScriptOp) :
    (rest.map ScriptOp.data).getLastD first.data = (lastOp first rest).data := by
  unfold lastOp
  rw [List.getLastD_eq_getLast?, List.getLastD_eq_getLast?, List.getLast?_map]
  cases rest.getLast? <;> rfl

theorem pushedStack_cons (first : ScriptOp) (rest : List ScriptOp) :
    ∃ below, pushedStack (first :: rest) = pushedValue (lastOp first rest) :: below
      ∧ (below ≠ [] → rest ≠ []) := by
  induction rest using List.reverseRecOn with
  | nil => exact ⟨[], rfl, fun h => absurd rfl h⟩
  | append_singleton rest op _ =>
    refine ⟨pushedStack (first :: rest), ?_, fun _ => by simp⟩
    unfold pushedStack lastOp
    rw [List.getLastD_concat, ← List.cons_append, List.map_append, List.reverse_append]
    rfl

theorem length_of_isValidPubKey {data : Bytes} (hvalid : isValidPubKey data = true) :
    2 ≤ data.length := by
  obtain ⟨hne, hlength⟩ := of_decide_eq_true hvalid
  rw [← hlength]
  unfold Script.pubKeyLength at hne ⊢
  split_ifs at hne ⊢ <;> omega

/-- The last element of an input that spends a public key hash is the key, and there is a
signature before it. -/
theorem verified_pubkeyHash_last {env : CheckEnv} {tx : SignedTx} {i : ℕ}
    (hops : HasOps scriptSig (first :: rest)) (hpush : ∀ op ∈ first :: rest, op.opcode ≤ OP_16)
    (hspent : IsStandard scriptEnv spentScript .pubkeyHash addresses)
    (hverify : verifyScript (env.verifyEnv tx i) flags scriptSig spentScript = .ok sigOps) :
    rest ≠ [] ∧ addresses = [.key (env.hashes.hash160 (lastOp first rest).data)] := by
  obtain ⟨spentOps, hspentOps, hstandard⟩ := hspent.ops
  obtain ⟨signed, spent, redeemed, hrun, rfl⟩ := verifyScript_run hverify
  have hspentRun := hrun.spentRun
  rw [evalScript_pushOnly hops hpush hrun.signedRun] at hspentRun
  obtain ⟨ops, machine, hops', hrounds, -, rfl⟩ := evalScript_eq_ok hspentRun
  obtain rfl := hops'.unique hspentOps
  obtain ⟨pubKey, sig, below, sigOp, hmain, haddresses, hsigns, haccepted⟩ :=
    evalOps_pubkeyHash hstandard rfl hrounds
  obtain ⟨pushed, htop, hmore⟩ := pushedStack_cons first rest
  obtain ⟨hkey, hbelow⟩ := List.cons.inj (htop.symm.trans hmain)
  have htrue := hrun.isTrue
  rw [hsigns.main, List.headD_cons, castToBool_vchOf] at htrue
  obtain ⟨accepted, hmem⟩ := List.exists_mem_of_ne_nil _ (hsigns.accepted htrue)
  have hchecked := hsigns.sound.checked accepted hmem
  rw [haccepted accepted hmem] at hchecked
  have hvalid : isValidPubKey pubKey = true := by
    change env.checkSig tx i sig pubKey _ = true at hchecked
    unfold CheckEnv.checkSig at hchecked
    cases hlast : sig.getLast? with
    | none => rw [hlast] at hchecked; cases hchecked
    | some hashType =>
      rw [hlast] at hchecked
      exact (Bool.and_eq_true_iff.mp hchecked).1
  rw [← hkey] at hvalid haddresses
  have hdata := pushedValue_eq_data (hpush _ (lastOp_mem first rest)) (length_of_isValidPubKey hvalid)
  exact ⟨hmore (by rw [hbelow]; exact List.cons_ne_nil _ _), by rw [haddresses, hdata]; rfl⟩

/-- The last element of an input that spends a script hash has the hash. -/
theorem verified_scriptHash_last
    (hops : HasOps scriptSig (first :: rest)) (hpush : ∀ op ∈ first :: rest, op.opcode ≤ OP_16)
    (hspent : IsStandard scriptEnv spentScript .scriptHash addresses)
    (hverify : verifyScript venv flags scriptSig spentScript = .ok sigOps) :
    addresses = [.script (venv.hashes.hash160 (pushedValue (lastOp first rest)))] := by
  obtain ⟨spentOps, hspentOps, hstandard⟩ := hspent.ops
  obtain ⟨signed, spent, redeemed, hrun, rfl⟩ := verifyScript_run hverify
  have hspentRun := hrun.spentRun
  rw [evalScript_pushOnly hops hpush hrun.signedRun] at hspentRun
  obtain ⟨ops, machine, hops', hrounds, -, rfl⟩ := evalScript_eq_ok hspentRun
  obtain rfl := hops'.unique hspentOps
  obtain ⟨x, below, found, hmain, hbecomes, haddresses⟩ := evalOps_scriptHash hstandard rfl hrounds
  have htrue := hrun.isTrue
  rw [hbecomes.main, List.headD_cons, castToBool_vchOf] at htrue
  obtain ⟨pushed, htop, -⟩ := pushedStack_cons first rest
  obtain ⟨hkey, -⟩ := List.cons.inj (htop.symm.trans hmain)
  rw [haddresses htrue, ← hkey]

theorem evalScript_number {env : EvalEnv} {main : List Bytes} {opcode : Byte} {result : Evaluated}
    (hplain : OP_PUSHDATA4 < opcode) (hpush : opcode ≤ OP_16) (hreserved : opcode ≠ 0x50) :
    evalScript env flags main (serialize ((opcode.toNat : ℤ) - 0x50)) ≠ .ok result := by
  intro heval
  obtain ⟨ops, machine, hops, hrounds, -⟩ := evalScript_eq_ok heval
  have hbytes : serialize ((opcode.toNat : ℤ) - 0x50) ≠ []
      ∧ (getOp (serialize ((opcode.toNat : ℤ) - 0x50))).all
        (fun op => decide (op.opcode ∈ disabledOpcodes)) = true := by
    clear heval hops hrounds
    revert hplain hpush hreserved
    revert opcode
    decide +kernel
  cases ops with
  | nil => exact hbytes.1 (Script.hasOps_nil_iff.mp hops)
  | cons op ops =>
    have hop := (Script.hasOps_cons_iff.mp hops).1
    have hdisabled := hbytes.2
    rw [hop, Option.all_some, decide_eq_true_eq] at hdisabled
    obtain ⟨next, hround, -⟩ := evalOps_cons_eq_ok.mp hrounds
    obtain ⟨checked, -, hround⟩ := bind_eq_ok.mp hround
    obtain ⟨ready, -, hround⟩ := bind_eq_ok.mp hround
    rw [if_pos hdisabled] at hround
    cases hround

theorem redeemed_last_data
    (hops : HasOps scriptSig (first :: rest)) (hpush : ∀ op ∈ first :: rest, op.opcode ≤ OP_16)
    (hflag : flags.p2sh = true) (hscriptHash : isPayToScriptHash spentScript = true)
    (hverify : verifyScript venv flags scriptSig spentScript = .ok sigOps) :
    pushedValue (lastOp first rest) = (lastOp first rest).data := by
  obtain ⟨signed, spent, redeemed, hrun, rfl⟩ := verifyScript_run hverify
  obtain ⟨-, -, hredeem⟩ := hrun.redeem.resolve_right fun h => h.1 ⟨hflag, hscriptHash⟩
  obtain ⟨used, redeemScript, below, result, -, hstack, heval, -, -⟩ := hredeem.run
  rw [evalScript_pushOnly hops hpush hrun.signedRun] at hstack
  obtain ⟨pushed, htop, -⟩ := pushedStack_cons first rest
  obtain ⟨hkey, -⟩ := List.cons.inj (htop.symm.trans hstack)
  rw [← hkey] at heval
  have hlast := hpush _ (lastOp_mem first rest)
  rw [pushedValue] at heval ⊢
  split_ifs at heval ⊢ with hdata
  · rfl
  by_cases hreserved : (lastOp first rest).opcode = 0x50
  · rw [hops.data_eq_nil (lastOp_mem first rest) (BitVec.not_le.mp hdata), hreserved]
    rfl
  exact absurd heval (evalScript_number (BitVec.not_le.mp hdata) hlast hreserved)

/-- An input script that spends a script hash starts with an empty element. -/
theorem redeemed_first_empty
    (hops : HasOps scriptSig (first :: rest)) (hstreams : venv.params.streams = true)
    (hflag : flags.p2sh = true) (hscriptHash : isPayToScriptHash spentScript = true)
    (hverify : verifyScript venv flags scriptSig spentScript = .ok sigOps) : first.data = [] := by
  obtain ⟨signed, spent, redeemed, hrun, rfl⟩ := verifyScript_run hverify
  obtain ⟨-, -, hredeem⟩ := hrun.redeem.resolve_right fun h => h.1 ⟨hflag, hscriptHash⟩
  obtain ⟨used, -, -, -, hused, -⟩ := hredeem.run
  have hsmall : hasSmallIntegerInTheBeginning scriptSig = true := by
    by_contra hother
    unfold redeemFlags at hused
    rw [if_neg (not_not.mpr hstreams), if_pos hother] at hused
    cases hused
  obtain ⟨hop, -⟩ := Script.hasOps_cons_iff.mp hops
  cases hscript : scriptSig with
  | nil => rw [hscript] at hop; cases hop
  | cons opcode after =>
    rw [hscript] at hsmall hop
    have hhead : opcode = first.opcode := by simpa using Script.getOp_opcode hop
    rcases of_decide_eq_true hsmall with hzero | hnumber
    · subst hzero
      rw [(Script.getOp_direct hop (by decide)).2.1]
      rfl
    have hlow : OP_1 ≤ first.opcode := hhead ▸ (of_decide_eq_true hnumber).1
    exact Script.getOp_data_of_lt hop (BitVec.not_le.mp fun hle =>
      absurd (BitVec.le_trans hlow hle) (by decide))

end Amberchain.Interpreter
