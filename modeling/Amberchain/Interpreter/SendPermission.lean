import Amberchain.Interpreter.CheckInputs
import Amberchain.Interpreter.Standard
import Amberchain.Interpreter.Verified

/-!
# Send permissions of spent outputs

A transaction whose inputs pass their checks spends each output with a send permission:
that of an address read off the output script, or that of a key behind every signature
operation that comes out true.
-/

namespace Amberchain.Interpreter

open Folding (bind_eq_ok)
open Script (HasOps StandardOps IsStandard)
open Storage Transaction

variable {env : CheckEnv} {view : CoinsView} {tx : SignedTx} {flags : VerifyFlags} {queue : Bool}

def Scanned (env : CheckEnv) (view : CoinsView) (input : TxIn) (skip : Bool) : Prop :=
  ∃ coins out i, spentOutput view input.prevout = some (coins, out)
    ∧ sendPermission env i out.scriptPubKey = .ok skip

theorem scanInput_spec {scan next : InputScan} {input : TxIn}
    (hscan : scanInput env view true scan input = .ok next) :
    ∃ skip, next.skips = scan.skips ++ [skip] ∧ Scanned env view input skip := by
  unfold scanInput at hscan
  cases hspent : spentOutput view input.prevout with
  | none => rw [hspent] at hscan; cases hscan
  | some found =>
    obtain ⟨coins, out⟩ := found
    rw [hspent] at hscan
    dsimp only at hscan
    split at hscan
    · cases hscan
    split at hscan
    · cases hscan
    obtain ⟨skip, hskip, hend⟩ := bind_eq_ok.mp hscan
    cases hend
    exact ⟨skip, rfl, coins, out, _, hspent, hskip⟩

theorem scanInputs_spec {inputs : List TxIn} {scan final : InputScan}
    (hscan : inputs.foldlM (scanInput env view true) scan = .ok final) :
    ∃ skips, final.skips = scan.skips ++ skips ∧ List.Forall₂ (Scanned env view) inputs skips := by
  induction inputs generalizing scan with
  | nil =>
    cases hscan
    exact ⟨[], (List.append_nil _).symm, .nil⟩
  | cons input inputs ih =>
    obtain ⟨next, hfirst, hrest⟩ := Folding.foldlM_cons_eq_ok.mp hscan
    obtain ⟨skip, hnext, hscanned⟩ := scanInput_spec hfirst
    obtain ⟨skips, hfinal, hall⟩ := ih hrest
    exact ⟨skip :: skips, by rw [hfinal, hnext, List.append_assoc]; rfl, .cons hscanned hall⟩

def inputFlags (flags : VerifyFlags) (skip : Bool) : VerifyFlags :=
  { flags with skipSendPermissionCheck := flags.skipSendPermissionCheck || skip }

theorem checkScripts_spec {inputs : List (ℕ × Bool)} {queued final : List ScriptCheck}
    (hcheck : inputs.foldlM (checkScript env view tx flags queue) queued = .ok final) :
    ∀ input ∈ inputs, input.2 = true
      ∨ ∃ sigOps, ScriptCheck.run env view tx ⟨input.1, inputFlags flags input.2⟩ = .ok sigOps := by
  induction inputs generalizing queued with
  | nil => exact fun _ hmem => absurd hmem List.not_mem_nil
  | cons input inputs ih =>
    obtain ⟨next, hfirst, hrest⟩ := Folding.foldlM_cons_eq_ok.mp hcheck
    refine List.forall_mem_cons.mpr ⟨?_, ih hrest⟩
    unfold checkScript at hfirst
    dsimp only at hfirst
    split at hfirst
    next hqueue => exact .inl hqueue.2
    next =>
      refine .inr ?_
      unfold inputFlags
      cases hrun : ScriptCheck.run env view tx ⟨input.1, { flags with
          skipSendPermissionCheck := flags.skipSendPermissionCheck || input.2 }⟩ with
      | error err => rw [hrun] at hfirst; cases hfirst
      | ok sigOps => exact ⟨sigOps, rfl⟩

/-- The output that an input spends, what the first loop found out about it, and the run of
its scripts, unless the check queue gets it. -/
theorem checkInputs_input {queued : List ScriptCheck} (hcoinbase : tx.isCoinBase = false)
    (hcheck : checkInputs env view tx true flags queue = .ok queued) {i : ℕ}
    (hi : i < tx.vin.length) :
    ∃ coins out skip n, spentOutput view tx.vin[i].prevout = some (coins, out)
      ∧ sendPermission env n out.scriptPubKey = .ok skip
      ∧ (skip = true ∨ ∃ sigOps, verifyScript (env.verifyEnv tx i) (inputFlags flags skip)
        tx.vin[i].scriptSig out.scriptPubKey = .ok sigOps) := by
  unfold checkInputs at hcheck
  rw [hcoinbase, if_neg Bool.false_ne_true] at hcheck
  split at hcheck
  · cases hcheck
  obtain ⟨scan, hscan, hcheck⟩ := bind_eq_ok.mp hcheck
  obtain ⟨valueOut, -, hcheck⟩ := bind_eq_ok.mp hcheck
  split at hcheck
  · cases hcheck
  split at hcheck
  · cases hcheck
  obtain ⟨skips, hskips, hall⟩ := scanInputs_spec hscan
  subst hskips
  have hlength := hall.length_eq
  have hlt : i < scan.skips.length := by omega
  obtain ⟨coins, out, n, hspent, hsend⟩ := (List.forall₂_iff_get.mp hall).2 i hi hlt
  refine ⟨coins, out, scan.skips[i], n, hspent, hsend, ?_⟩
  have hmem : (i, scan.skips[i]) ∈ (List.range tx.vin.length).zip scan.skips := by
    refine List.mem_iff_getElem.mpr ⟨i, by simp [hi, hlt], ?_⟩
    simp
  rcases checkScripts_spec hcheck _ hmem with hskip | ⟨sigOps, hrun⟩
  · exact .inl hskip
  refine .inr ⟨sigOps, ?_⟩
  unfold ScriptCheck.run at hrun
  dsimp only at hrun
  rw [List.getD_eq_getElem _ _ hi] at hrun
  rw [List.get_eq_getElem] at hspent
  rw [hspent] at hrun
  exact hrun

variable {venv : VerifyEnv} {scriptSig spentScript : Bytes}

theorem spentRun_ops {signed spent : Evaluated} {redeemed : List SigOp} {ops : List ScriptOp}
    (hrun : VerifyRun venv flags scriptSig spentScript signed spent redeemed)
    (hops : HasOps spentScript ops) :
    ∃ machine, evalOps venv.toEvalEnv flags ops (Machine.start spentScript signed.stack)
      = .ok machine ∧ spent = ⟨machine.stack.main, machine.sigOps⟩ := by
  obtain ⟨ops', machine, hops', heval, -, hspent⟩ := evalScript_eq_ok hrun.spentRun
  rw [hops'.unique hops] at heval
  exact ⟨machine, heval, hspent⟩

theorem success_of_signs
    {signed spent : Evaluated} {redeemed : List SigOp} {machine : Machine} {sigOp : SigOp}
    {rest : List Bytes} (hrun : VerifyRun venv flags scriptSig spentScript signed spent redeemed)
    (hspent : spent = ⟨machine.stack.main, machine.sigOps⟩)
    (hsigns : (Machine.start spentScript signed.stack).Signs venv.toEvalEnv flags machine sigOp rest) :
    sigOp.success = true ∧ sigOp ∈ spent.sigOps := by
  have htrue := hrun.isTrue
  rw [hspent, hsigns.main, List.headD_cons, castToBool_vchOf] at htrue
  refine ⟨htrue, ?_⟩
  rw [hspent, hsigns.sigOps]
  exact List.mem_append_right _ (List.mem_singleton_self _)

variable {sigOps : List SigOp} {scriptEnv : ScriptEnv} {addresses : List Destination}

theorem verified_signing {type : TxnOutType}
    (hstandard : IsStandard scriptEnv spentScript type addresses) (htype : type ≠ .scriptHash)
    (hverify : verifyScript venv flags scriptSig spentScript = .ok sigOps) :
    ∃ sigOp ∈ sigOps, sigOp.success = true ∧ sigOp.Sound venv.toEvalEnv flags := by
  obtain ⟨ops, hops, hstandardOps⟩ := hstandard.ops
  obtain ⟨signed, spent, redeemed, hrun, rfl⟩ := verifyScript_run hverify
  obtain ⟨sigOp, hsigOps, hsuccess, hsound, -⟩ :=
    evalScript_signing hops hstandardOps htype hrun.spentRun hrun.isTrue
  exact ⟨sigOp, by simp [hsigOps], hsuccess, hsound⟩

/-- A verified output script with a public key accepted a signature of that key. -/
theorem verified_pubkey (hhash : scriptEnv.hash160 = venv.hashes.hash160)
    (hstandard : IsStandard scriptEnv spentScript .pubkey addresses)
    (hmultichain : venv.params.isProtocolMultichain = true)
    (hskip : flags.skipSendPermissionCheck = false)
    (hverify : verifyScript venv flags scriptSig spentScript = .ok sigOps) :
    ∃ id, addresses = [.key id] ∧ venv.canSend id = true := by
  obtain ⟨ops, hops, hstandardOps⟩ := hstandard.ops
  obtain ⟨signed, spent, redeemed, hrun, rfl⟩ := verifyScript_run hverify
  obtain ⟨machine, heval, hspent⟩ := spentRun_ops hrun hops
  obtain ⟨pubKey, sig, rest, sigOp, -, -, haddresses, hkey, hsigns, haccepted⟩ :=
    evalOps_pubkey hstandardOps rfl heval
  obtain ⟨hsuccess, -⟩ := success_of_signs hrun hspent hsigns
  obtain ⟨accepted, hmem, hsend⟩ := hsigns.sound.maySend hsuccess hskip hmultichain
  rw [haccepted accepted hmem] at hsend
  refine ⟨venv.hashes.hash160 pubKey, ?_, hsend⟩
  rw [haddresses, ← hhash]
  unfold Script.vectorToAddress at hkey ⊢
  dsimp only at hkey ⊢
  split_ifs at hkey ⊢
  · rfl
  exact absurd rfl hkey

theorem verified_pubkeyHash (hstandard : IsStandard scriptEnv spentScript .pubkeyHash addresses)
    (hmultichain : venv.params.isProtocolMultichain = true)
    (hskip : flags.skipSendPermissionCheck = false)
    (hverify : verifyScript venv flags scriptSig spentScript = .ok sigOps) :
    ∃ id, addresses = [.key id] ∧ venv.canSend id = true := by
  obtain ⟨ops, hops, hstandardOps⟩ := hstandard.ops
  obtain ⟨signed, spent, redeemed, hrun, rfl⟩ := verifyScript_run hverify
  obtain ⟨machine, heval, hspent⟩ := spentRun_ops hrun hops
  obtain ⟨pubKey, sig, rest, sigOp, -, haddresses, hsigns, haccepted⟩ :=
    evalOps_pubkeyHash hstandardOps rfl heval
  obtain ⟨hsuccess, -⟩ := success_of_signs hrun hspent hsigns
  obtain ⟨accepted, hmem, hsend⟩ := hsigns.sound.maySend hsuccess hskip hmultichain
  rw [haccepted accepted hmem] at hsend
  exact ⟨venv.hashes.hash160 pubKey, haddresses, hsend⟩

theorem ne_of_le_pushData4 {opcode other : Byte} (hle : opcode ≤ OP_PUSHDATA4)
    (hother : OP_PUSHDATA4 < other) : opcode ≠ other := by
  rintro rfl
  exact absurd hother (BitVec.not_lt.mpr hle)

theorem addressOf_take (data : Bytes) : Script.addressOf (data.take 20) = Script.addressOf data := by
  unfold Script.addressOf getLE
  rw [List.take_take, Nat.min_self]

/-- Behind a direct push of a public key hash the right address is read. -/
theorem extractDestinationScriptValid_pubkeyHash {hash160 : Bytes → Hash160} {script : Bytes}
    {scriptEnv : ScriptEnv} {addresses : List Destination}
    (hstandard : IsStandard scriptEnv script .pubkeyHash addresses)
    (hdirect : script[2]? = some 0x14) :
    ∃ id, addresses = [.key id] ∧ extractDestinationScriptValid hash160 script = some (.key id) := by
  obtain ⟨ops, hops, hstandardOps⟩ := hstandard.ops
  cases hstandardOps with
  | @pubkeyHash dup hash push verify check drops hdup hhash hpush hdata hverify hcheck hdrops =>
    refine ⟨_, rfl, ?_⟩
    obtain ⟨hdupOp, hops⟩ := Script.hasOps_cons_iff.mp hops
    obtain ⟨hhashOp, hops⟩ := Script.hasOps_cons_iff.mp hops
    obtain ⟨hpushOp, hops⟩ := Script.hasOps_cons_iff.mp hops
    obtain ⟨hverifyOp, hops⟩ := Script.hasOps_cons_iff.mp hops
    obtain ⟨hcheckOp, -⟩ := Script.hasOps_cons_iff.mp hops
    have hscript := Script.eq_cons_of_plain hdupOp (by rw [hdup]; decide)
    have hhashed := Script.eq_cons_of_plain hhashOp (by rw [hhash]; decide)
    have hverified := Script.eq_cons_of_plain hverifyOp (by rw [hverify]; decide)
    have hchecked := Script.eq_cons_of_plain hcheckOp (by rw [hcheck]; decide)
    rw [hdup] at hscript
    rw [hhashed] at hscript
    rw [hscript] at hdirect
    cases hrest : hash.rest with
    | nil => rw [hrest] at hpushOp; cases hpushOp
    | cons opcode rest =>
      rw [hrest] at hdirect hpushOp
      cases hdirect
      obtain ⟨-, hpushData, hpushRest⟩ := Script.getOp_direct hpushOp (by decide)
      rw [hrest] at hscript
      have hlength : (rest.drop 20).length = check.rest.length + 2 := by
        rw [show rest.drop 20 = push.rest from hpushRest.symm, hverified, hchecked]
        rfl
      have hsize : 25 ≤ script.length := by
        rw [List.length_drop] at hlength
        rw [hscript]
        simp only [List.length_cons]
        omega
      unfold extractDestinationScriptValid
      rw [if_pos ⟨hsize, by rw [hscript]; rfl⟩, hscript, hpushData]
      exact congrArg (fun id => some (Destination.key id)) (addressOf_take rest).symm

variable {script : Bytes}

/-- What is read off an output script with a public key is its address. -/
theorem extractDestinationScriptValid_pubkey {address : Destination}
    (hstandard : IsStandard scriptEnv script .pubkey addresses)
    (hread : extractDestinationScriptValid scriptEnv.hash160 script = some address) :
    addresses = [address] := by
  obtain ⟨ops, hops, hstandardOps⟩ := hstandard.ops
  cases hstandardOps with
  | @pubkey push check drops hpush hkey hcheck hdrops =>
    cases hops with
    | cons hpushOp hops =>
      cases hscript : script with
      | nil => rw [hscript] at hpushOp; cases hpushOp
      | cons opcode rest =>
        have hhead : opcode = push.opcode := by
          simpa [hscript] using Script.getOp_opcode hpushOp
        rw [hscript] at hread hpushOp
        unfold extractDestinationScriptValid at hread
        dsimp only [List.headD_cons] at hread
        rw [← hhead] at hpush
        rw [if_neg (fun h => ne_of_le_pushData4 hpush (by decide) h.2),
          if_neg (fun h => ne_of_le_pushData4 hpush (by decide) h.2)] at hread
        split at hread
        next hrange =>
          obtain ⟨-, hpushData, -⟩ := Script.getOp_direct hpushOp
            (BitVec.lt_def.mpr (show opcode.toNat < 0x4c by omega))
          rw [List.drop_succ_cons, List.drop_zero, ← hpushData] at hread
          unfold Script.vectorToAddress at hkey ⊢
          split at hread
          next hvalid =>
            cases hread
            rw [if_pos (of_decide_eq_true hvalid)]
          · cases hread
        · cases hread

theorem address_of_pubkey {address : Destination}
    {id : Hash160} (hstandard : IsStandard scriptEnv script .pubkey [address])
    (haddress : address.address = some id) : address = .key id := by
  obtain ⟨ops, -, hstandardOps⟩ := hstandard.ops
  cases hstandardOps with
  | pubkey =>
    unfold Script.vectorToAddress at haddress ⊢
    dsimp only at haddress ⊢
    split_ifs at haddress ⊢
    · cases haddress
      rfl
    cases haddress

/-- Nothing is read off a bare multisignature. -/
theorem extractDestinationScriptValid_multisig {hash160 : Bytes → Hash160}
    (hstandard : IsStandard scriptEnv script .multisig addresses) :
    extractDestinationScriptValid hash160 script = none := by
  obtain ⟨ops, hops, hstandardOps⟩ := hstandard.ops
  cases hstandardOps with
  | @multisig required count check keys drops hrequired hpush hkeys hcount hlength hcheck hdrops =>
    cases hops with
    | cons hrequiredOp hops =>
      have hhead : script.headD 0 = required.opcode := by
        have hfirst := Script.getOp_opcode hrequiredOp
        cases script with
        | nil => cases hfirst
        | cons opcode rest => simpa using hfirst
      have hlow : 0x51 ≤ required.opcode.toNat := hrequired.1
      have hhigh : required.opcode.toNat ≤ 0x60 := hrequired.2
      have hne (other : Byte) (hother : 0x60 < other.toNat) : required.opcode ≠ other := by
        rintro rfl
        omega
      unfold extractDestinationScriptValid
      rw [hhead, if_neg (fun h => hne _ (by decide) h.2), if_neg (fun h => hne _ (by decide) h.2),
        if_neg (by omega)]

def AddressMaySend (env : CheckEnv) (script : Bytes) : Prop :=
  ∃ address id, (extractDestinationScriptValid env.hashes.hash160 script = some address
      ∨ Script.extractDestination env.script env.params script = some address)
    ∧ address.address = some id ∧ env.canSend id = true

def SigOp.MaySend (env : CheckEnv) (tx : SignedTx) (i : ℕ) (sigOp : SigOp) : Prop :=
  ∃ accepted ∈ sigOp.accepted,
    env.checkSig tx i accepted.signature accepted.pubKey accepted.scriptCode = true
      ∧ env.canSend (env.hashes.hash160 accepted.pubKey) = true

/-- The send permission behind a spent output.  For a public key, or its hash behind a direct
push, it is the one of the address; for a bare multisignature that of a key which signed. -/
structure SpendPermitted (env : CheckEnv) (tx : SignedTx) (i : ℕ) (flags : VerifyFlags)
    (scriptSig script : Bytes) : Prop where
  anyScript : AddressMaySend env script
    ∨ ∃ sigOps, verifyScript (env.verifyEnv tx i) flags scriptSig script = .ok sigOps
      ∧ ∀ sigOp ∈ sigOps, sigOp.success = true → sigOp.MaySend env tx i
  ofKey : ∀ type addresses, IsStandard env.script script type addresses →
    type = .pubkey ∨ type = .pubkeyHash ∧ script[2]? = some 0x14 →
    ∃ id, addresses = [.key id] ∧ env.canSend id = true
  ofMultisig : ∀ addresses, IsStandard env.script script .multisig addresses →
    ∃ sigOps, verifyScript (env.verifyEnv tx i) flags scriptSig script = .ok sigOps
      ∧ ∃ sigOp ∈ sigOps, sigOp.MaySend env tx i

theorem SigOp.Sound.maySend_of {i : ℕ} {sigOp : SigOp}
    (hsound : sigOp.Sound (env.verifyEnv tx i).toEvalEnv flags)
    (hmay : ∃ accepted ∈ sigOp.accepted, accepted.MaySend (env.verifyEnv tx i).toEvalEnv) :
    sigOp.MaySend env tx i := by
  obtain ⟨accepted, hmem, hsend⟩ := hmay
  exact ⟨accepted, hmem, hsound.checked accepted hmem, hsend⟩

/-- What a successful look-up before the scripts says: the address that is read off the
script may send, or the scripts have to look for a permission. -/
theorem sendPermission_cases {n : ℕ} {skip : Bool}
    (hsend : sendPermission env n script = .ok skip) : (skip = true ∧ ∃ address id,
        extractDestinationScriptValid env.hashes.hash160 script = some address
          ∧ address.address = some id ∧ env.canSend id = true) ∨ skip = false
        ∧ ∀ id, extractDestinationScriptValid env.hashes.hash160 script ≠ some (.key id) := by
  unfold sendPermission at hsend
  cases hread : extractDestinationScriptValid env.hashes.hash160 script with
  | none =>
    rw [hread] at hsend
    cases hsend
    exact .inr ⟨rfl, nofun⟩
  | some address =>
    rw [hread] at hsend
    cases address with
    | none =>
      cases hsend
      exact .inr ⟨rfl, nofun⟩
    | key id =>
      dsimp only at hsend
      split_ifs at hsend with hcan
      cases hsend
      exact .inl ⟨rfl, _, id, rfl, rfl, hcan⟩
    | script id =>
      cases hcan : env.canSend id with
      | true =>
        dsimp only at hsend
        rw [hcan] at hsend
        cases hsend
        exact .inl ⟨rfl, _, id, rfl, rfl, hcan⟩
      | false =>
        dsimp only at hsend
        rw [hcan] at hsend
        cases hsend
        exact .inr ⟨rfl, nofun⟩

theorem inputFlags_false (hskip : flags.skipSendPermissionCheck = false) :
    inputFlags flags false = flags := by
  cases flags
  cases hskip
  rfl

theorem verifyScript_allMaySend {i : ℕ} {scriptSig script : Bytes}
    (hmultichain : env.params.isProtocolMultichain = true)
    (hskip : flags.skipSendPermissionCheck = false)
    (hverify : verifyScript (env.verifyEnv tx i) flags scriptSig script = .ok sigOps) :
    AddressMaySend env script ∨ ∀ sigOp ∈ sigOps, sigOp.success = true → sigOp.MaySend env tx i := by
  rcases verifyScript_sound hskip hverify with ⟨id, hextract, hsend⟩ | hsound
  · exact .inl ⟨.script id, id, .inr hextract, rfl, hsend⟩
  refine .inr ?_
  intro sigOp hmem hsuccess
  exact (hsound sigOp hmem).maySend_of ((hsound sigOp hmem).maySend hsuccess hskip hmultichain)

/-- A chain on which sending takes a grant, and toy functions in place of the hashes and of
the curve. -/
def guardedEnv (granted : List Permission.LedgerRow) : CheckEnv where
  params := { ChainParams.defaults with anyoneCanSend := false }
  maxScriptElementSize := 520
  hashes := ⟨fun _ => 0, fun _ => 0, fun _ => 0, fun _ => 0, fun _ => 0⟩
  checkLowS := fun _ => true
  ecdsaVerify := fun _ _ _ => true
  extractDestinations10008 := fun _ => { ok := false, type := .nonstandard, addresses := [] }
  permissions := { Permission.Store.zero .empty .empty with memPool := granted }
  maxMoney := 0
  coinbaseMaturity := 60

/-- A transaction with one input. -/
def spendingTx (scriptSig : Bytes) : SignedTx where
  hash := 1
  vin := [⟨⟨7, 0⟩, scriptSig⟩]
  vout := [⟨0, []⟩]
  version := 1
  sequences := [0]
  lockTime := 0
  length_sequences := rfl

def coinView (script : Bytes) : CoinsView where
  coins hash := if hash = 7 then some ⟨false, [⟨0, script⟩], 1, 1⟩ else none
  height := 10

def sendRow : Permission.LedgerRow :=
  { Permission.LedgerRow.zero ⟨Permission.nullEntity, 0, Permission.MC_PTP_SEND⟩ with blockTo := 1000 }

def paidKey : Bytes :=
  0x02 :: List.replicate 32 0

def paidScriptSig : Bytes :=
  Miner.pushData [0x30, 0x01] ++ Miner.pushData paidKey

def paidScript : Bytes :=
  [OP_DUP, OP_HASH160] ++ Miner.pushData (List.replicate 20 0) ++ [OP_EQUALVERIFY, OP_CHECKSIG]

theorem guardedEnv_canSend (address : Hash160) : (guardedEnv []).canSend address = false := by
  have hnone (key : Permission.PermKey) : (guardedEnv []).permissions.permission key = 0 := rfl
  unfold CheckEnv.canSend Permission.Store.canSend
  rw [if_neg (by decide), if_neg (by decide)]
  simp [hnone]

end Amberchain.Interpreter
