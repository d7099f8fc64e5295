import Amberchain.Interpreter.Extraction
import Amberchain.Interpreter.Standard
import Amberchain.Interpreter.Verified

/-!
# Destinations that have to sign

Whoever spends a bare multisignature needs the signatures that the extraction of its destinations
asks for, as long as nothing but dropped elements stands behind it.
-/

namespace Amberchain.Interpreter

open Miner (pushData)
open Script

section Spending

variable {env : VerifyEnv} {flags : VerifyFlags} {script scriptSig : Bytes}
variable {required count check : ScriptOp} {keys drops : List ScriptOp} {sigOps : List SigOp}

theorem verifyScript_bareMultisig (hbare : BareMultisig required count check keys drops)
    (hops : HasOps script (required :: keys ++ count :: check :: drops))
    (hverify : verifyScript env flags scriptSig script = .ok sigOps) :
    ∃ signers : List Accepted, signers.length = smallInteger required
      ∧ (signers.map Accepted.pubKey).Sublist (keys.map ScriptOp.data).reverse
      ∧ ∀ accepted ∈ signers, accepted.Checked env.toEvalEnv := by
  obtain ⟨signed, spent, redeemed, hrun, -⟩ := verifyScript_run hverify
  obtain ⟨ops, machine, hops', hrounds, -, hresult⟩ := evalScript_eq_ok hrun.spentRun
  obtain rfl := hops'.unique hops
  obtain ⟨rest, sigOp, hsigns, -, hlength, hsublist⟩ := evalOps_bareMultisig hbare rfl hrounds
  have htrue := hrun.isTrue
  rw [hresult] at htrue
  rw [hsigns.main, List.headD_cons, castToBool_vchOf] at htrue
  exact ⟨sigOp.accepted, hlength htrue, hsublist, hsigns.sound.checked⟩

end Spending

/-- Every spending of a multisignature that is accepted has signatures of as many of its addresses
as the extraction says. -/
def NeedsSignatures (env : CheckEnv) (script : Bytes) (extraction : Extraction) : Prop :=
  extraction.ok = true → extraction.type = .multisig →
    ∀ (tx : SignedTx) (nIn : ℕ) (flags : VerifyFlags) (scriptSig : Bytes) (sigOps : List SigOp),
      verifyScript (env.verifyEnv tx nIn) flags scriptSig script = .ok sigOps →
        ∃ signers : List Accepted, extraction.nRequired ≤ signers.length
          ∧ (signers.map fun accepted =>
              Destination.key (env.hashes.hash160 accepted.pubKey)).Subperm extraction.addresses
          ∧ ∀ accepted ∈ signers,
            env.checkSig tx nIn accepted.signature accepted.pubKey accepted.scriptCode = true

def OnlyDropsBehind (script : Bytes) : Prop :=
  ∃ required count check keys drops, BareMultisig required count check keys drops
    ∧ (∀ key ∈ keys, isPubKeySize key.data = true)
    ∧ HasOps script (required :: keys ++ count :: check :: drops)

section Signers

variable {env : CheckEnv} {standard : StandardEnv} {script : Bytes}

theorem signers_subperm {tx : SignedTx} {nIn : ℕ} {keys : List Bytes} {signers : List Accepted}
    (hsublist : (signers.map Accepted.pubKey).Sublist keys.reverse)
    (hchecked : ∀ accepted ∈ signers,
      env.checkSig tx nIn accepted.signature accepted.pubKey accepted.scriptCode = true) :
    (signers.map fun accepted => Destination.key (env.hashes.hash160 accepted.pubKey)).Subperm
      ((keys.filter isValidPubKey).map fun key => Destination.key (env.hashes.hash160 key)) := by
  have hvalid : ∀ key ∈ signers.map Accepted.pubKey, isValidPubKey key = true := by
    intro key hmem
    obtain ⟨accepted, haccepted, rfl⟩ := List.mem_map.mp hmem
    have hcheck := hchecked accepted haccepted
    rw [CheckEnv.checkSig] at hcheck
    split at hcheck
    · cases hcheck
    · exact (Bool.and_eq_true_iff.mp hcheck).1
  have hfiltered : (signers.map Accepted.pubKey).Sublist (keys.filter isValidPubKey).reverse := by
    have hfilter := hsublist.filter isValidPubKey
    rw [List.filter_eq_self.mpr hvalid, List.filter_reverse] at hfilter
    exact hfilter
  have hmap := hfiltered.map fun key => Destination.key (env.hashes.hash160 key)
  rw [List.map_map, List.map_reverse] at hmap
  exact hmap.subperm.trans (List.reverse_perm _).subperm

theorem vectorToAddress_valid {data : Bytes} (hvalid : vectorToAddress env.script data ≠ .none) :
    isValidPubKey data = true ∧ vectorToAddress env.script data
      = .key (env.hashes.hash160 data) := by
  unfold vectorToAddress at hvalid ⊢
  dsimp only at hvalid ⊢
  split at hvalid
  · rename_i hlength
    rw [if_pos hlength]
    exact ⟨decide_eq_true hlength, rfl⟩
  exact absurd rfl hvalid

/-- With the fixed extraction every spending needs the signatures. -/
theorem needsSignatures_fixed : NeedsSignatures env script (extractFixed env.script script) := by
  intro hok htype tx nIn flags scriptSig sigOps hverify
  rw [extractFixed] at hok htype ⊢
  cases hhead : extractHead env.script script with
  | mk type found =>
    obtain ⟨addresses, left⟩ := found
    rw [hhead] at hok htype
    cases left with
    | none => cases hok
    | some rest =>
      dsimp only at hok htype ⊢
      cases honly : onlyDrops script.length rest with
      | false =>
        rw [honly] at hok
        cases hok
      | true =>
        rw [honly, if_pos rfl] at htype
        rw [if_pos rfl]
        dsimp only at htype ⊢
        have hfound : Script.IsStandard env.script script type addresses :=
          ⟨by simp [htype], rest, hhead, honly⟩
        subst htype
        obtain ⟨ops, hops, hstandard⟩ := hfound.ops
        cases hstandard with
        | @multisig required count check keys drops hrequired hpush hkeys hcount hlength
            hcheck hdrops =>
            obtain ⟨signers, hsigners, hsublist, hchecked⟩ := verifyScript_bareMultisig
              ⟨hrequired, hpush, hcount, hlength, hcheck, hdrops⟩ hops hverify
            have hop := (hasOps_cons_iff.mp hops).1
            have haddresses : (keys.map fun key => vectorToAddress env.script key.data)
                = ((keys.map ScriptOp.data).filter isValidPubKey).map fun key =>
                  Destination.key (env.hashes.hash160 key) := by
              rw [List.filter_eq_self.mpr ?_, List.map_map]
              · exact List.map_congr_left fun key hmem =>
                  (vectorToAddress_valid (hkeys key hmem)).2
              intro data hmem
              obtain ⟨key, hkey, rfl⟩ := List.mem_map.mp hmem
              exact (vectorToAddress_valid (hkeys key hkey)).1
            refine ⟨signers, ?_, ?_, hchecked⟩
            · rw [fixedRequired_small hop hrequired, hsigners, decodeOpN_eq hrequired, smallInteger]
            rw [haddresses]
            exact signers_subperm hsublist hchecked

structure AlikeOp (op other : ScriptOp) : Prop where
  data : other.data = op.data
  plain : OP_PUSHDATA4 < op.opcode → other.opcode = op.opcode

/-- An operation that `RemoveOpDrops` writes back. -/
def WritesBack (op : ScriptOp) : Prop :=
  op.opcode ≤ OP_PUSHDATA4 ∧ op.data ≠ [] ∧ op.data.length < 2 ^ 32
    ∨ OP_PUSHDATA4 < op.opcode ∧ op.data = []

theorem hasOps_writeOps {ops : List ScriptOp} (hwrites : ∀ op ∈ ops, WritesBack op) :
    ∃ others, List.Forall₂ AlikeOp ops others ∧ HasOps (ops.flatMap writeOp) others := by
  induction ops with
  | nil => exact ⟨[], .nil, .nil⟩
  | cons op ops ih =>
    obtain ⟨hop, hrest⟩ := List.forall_mem_cons.mp hwrites
    obtain ⟨others, halike, hothers⟩ := ih hrest
    rw [List.flatMap_cons, writeOp]
    obtain ⟨hpush, hdata, hlength⟩ | ⟨hplain, hdata⟩ := hop
    · obtain ⟨opcode, -, hread⟩ := getOp_pushData_append hlength (ops.flatMap writeOp)
      rw [if_pos hdata]
      exact ⟨⟨opcode, op.data, ops.flatMap writeOp⟩ :: others,
        .cons ⟨rfl, fun hplain => absurd hplain (BitVec.not_lt.mpr hpush)⟩ halike,
        .cons hread hothers⟩
    rw [if_neg (not_not.mpr hdata)]
    exact ⟨⟨op.opcode, [], ops.flatMap writeOp⟩ :: others,
      .cons ⟨hdata.symm, fun _ => rfl⟩ halike,
      .cons (getOp_plain hplain (ops.flatMap writeOp)) hothers⟩

theorem hasReturn_of_ops {ops : List ScriptOp} (hops : HasOps script ops)
    (hreturn : ∀ op ∈ ops, op.opcode ≠ OP_RETURN) (fuel : ℕ) : hasReturn fuel script = false := by
  induction hops generalizing fuel with
  | nil => cases fuel <;> rfl
  | @cons script op ops hop _ ih =>
    obtain ⟨hne, hreturn⟩ := List.forall_mem_cons.mp hreturn
    cases fuel with
    | zero => rfl
    | succ fuel =>
      rw [hasReturn, hop]
      dsimp only
      split
      · rfl
      exact ih hreturn fuel

theorem isDrops_ne_return {drops : List ScriptOp} (hdrops : IsDrops drops) :
    ∀ op ∈ drops, op.opcode ≠ OP_RETURN := by
  induction hdrops with
  | nil => exact nofun
  | cons hpushed hdrop _ ih =>
    refine List.forall_mem_cons.mpr ⟨?_, List.forall_mem_cons.mpr ⟨?_, ih⟩⟩
    · intro heq
      exact absurd hpushed (by rw [heq]; decide)
    rw [hdrop]
    decide

/-- Without a dropped element there is nothing to cut off. -/
theorem opsBeforeDrop_none {ops : List ScriptOp} (hops : HasOps script ops)
    (hdrop : ∀ op ∈ ops, op.opcode ≠ OP_DROP) (fuel : ℕ) : opsBeforeDrop fuel script = none := by
  induction hops generalizing fuel with
  | nil => cases fuel <;> rfl
  | @cons script op ops hop _ ih =>
    obtain ⟨hne, hdrop⟩ := List.forall_mem_cons.mp hdrop
    cases fuel with
    | zero => rfl
    | succ fuel =>
      rw [opsBeforeDrop, hop]
      dsimp only
      rw [if_neg hne, ih hdrop fuel]
      rfl

/-- The operations before the first `OP_DROP`. -/
theorem opsBeforeDrop_some {front more : List ScriptOp} {drop : ScriptOp}
    (hops : HasOps script (front ++ drop :: more)) (hfront : ∀ op ∈ front, op.opcode ≠ OP_DROP)
    (hdrop : drop.opcode = OP_DROP) {fuel : ℕ} (hfuel : script.length ≤ fuel) :
    opsBeforeDrop fuel script = some front := by
  induction front generalizing script fuel with
  | nil =>
    have hop := (hasOps_cons_iff.mp hops).1
    have hlt := getOp_rest_lt hop
    obtain ⟨fuel, rfl⟩ := Nat.exists_eq_add_one_of_ne_zero (show fuel ≠ 0 by omega)
    rw [opsBeforeDrop, hop]
    exact if_pos hdrop
  | cons op front ih =>
    obtain ⟨hop, hrest⟩ := hasOps_cons_iff.mp hops
    obtain ⟨hne, hfront⟩ := List.forall_mem_cons.mp hfront
    have hlt := getOp_rest_lt hop
    obtain ⟨fuel, rfl⟩ := Nat.exists_eq_add_one_of_ne_zero (show fuel ≠ 0 by omega)
    rw [opsBeforeDrop, hop]
    dsimp only
    rw [if_neg hne, ih hrest hfront (by omega)]
    rfl

/-- What the destination of a bare multisignature is read from: its operations without the dropped
elements. -/
theorem removeOpDrops_bareMultisig {required count check : ScriptOp} {keys drops : List ScriptOp}
    (hbare : BareMultisig required count check keys drops)
    (hkeys : ∀ key ∈ keys, isPubKeySize key.data = true)
    (hops : HasOps script (required :: keys ++ count :: check :: drops)) :
    ∃ others, List.Forall₂ AlikeOp (required :: keys ++ [count, check]) others
      ∧ HasOps (removeOpDrops script) others := by
  obtain ⟨hrequired, hpush, hcount, -, hcheck, hdrops⟩ := hbare
  have hsplit : required :: keys ++ count :: check :: drops
      = (required :: keys ++ [count, check]) ++ drops := by simp
  have hmem {op : ScriptOp} (hop : op ∈ required :: keys ++ [count, check]) :
      (OP_1 ≤ op.opcode ∧ op.opcode ≤ OP_16) ∨ op ∈ keys ∨ op.opcode = OP_CHECKMULTISIG := by
    obtain hop | hop := List.mem_append.mp hop
    · obtain rfl | hop := List.mem_cons.mp hop
      · exact .inl hrequired
      · exact .inr (.inl hop)
    obtain rfl | hop := List.mem_cons.mp hop
    · exact .inl hcount
    · exact .inr (.inr (List.mem_singleton.mp hop ▸ hcheck))
  have hne {opcode : Byte} (hlarge : OP_16 < opcode) (hother : opcode ≠ OP_CHECKMULTISIG)
      {op : ScriptOp} (hop : op ∈ required :: keys ++ [count, check]) : op.opcode ≠ opcode := by
    rintro rfl
    obtain ⟨-, hsmall⟩ | hkey | hcode := hmem hop
    · exact absurd hlarge (BitVec.not_lt.mpr hsmall)
    · exact absurd (BitVec.le_trans (hpush op hkey) (by decide)) (BitVec.not_le.mpr hlarge)
    · exact hother hcode
  have hreturn : hasReturn script.length script = false := by
    rw [hsplit] at hops
    refine hasReturn_of_ops hops ?_ _
    intro op hop
    obtain hop | hop := List.mem_append.mp hop
    · exact hne (by decide) (by decide) hop
    · exact isDrops_ne_return hdrops op hop
  rw [removeOpDrops, hreturn]
  cases hdrops with
  | nil =>
    rw [opsBeforeDrop_none hops (fun op hop => hne (by decide) (by decide) hop)]
    refine ⟨_, List.forall₂_same.mpr fun op _ => ⟨rfl, fun _ => rfl⟩, hops⟩
  | @cons push drop rest hpushed hdrop hrest =>
    have hfront : required :: keys ++ count :: check :: push :: drop :: rest
        = (required :: keys ++ [count, check] ++ [push]) ++ drop :: rest := by simp
    rw [hfront] at hops
    have hwrites : ∀ op ∈ required :: keys ++ [count, check], WritesBack op := by
      intro op hop
      have hdata := HasOps.data_eq_nil hops (List.mem_append_left _ (List.mem_append_left _ hop))
      obtain hsmall | hkey | hcode := hmem hop
      · exact .inr ⟨small_plain hsmall, hdata (small_plain hsmall)⟩
      · have hsize := hkeys op hkey
        rw [isPubKeySize, Bool.and_eq_true_iff, decide_eq_true_eq, decide_eq_true_eq] at hsize
        refine .inl ⟨hpush op hkey, ?_, by omega⟩
        intro hnil
        rw [hnil, List.length_nil] at hsize
        omega
      have hplain : OP_PUSHDATA4 < op.opcode := by
        rw [hcode]
        decide
      exact .inr ⟨hplain, hdata hplain⟩
    obtain ⟨others, halike, hothers⟩ := hasOps_writeOps hwrites
    rw [opsBeforeDrop_some hops ?_ hdrop (Nat.le_refl _)]
    · dsimp only
      rw [List.dropLast_concat]
      exact ⟨others, halike, hothers⟩
    intro op hop
    obtain hop | hop := List.mem_append.mp hop
    · exact hne (by decide) (by decide) hop
    obtain rfl := List.mem_singleton.mp hop
    intro heq
    exact absurd hpushed (by rw [heq]; decide)

theorem takePubKeys_ops {op count : ScriptOp} {keys more : List ScriptOp}
    (hsizes : ∀ key ∈ keys, isPubKeySize key.data = true) (hcount : count.data = [])
    (hops : HasOps script (keys ++ count :: more)) (hop : getOp script = some op) {fuel : ℕ}
    (hfuel : script.length ≤ fuel) (found : List Bytes) :
    takePubKeys fuel op found = (count, found ++ keys.map ScriptOp.data) := by
  induction keys generalizing script op fuel found with
  | nil =>
    have hfirst := (hasOps_cons_iff.mp hops).1
    rw [hop] at hfirst
    obtain rfl := Option.some.inj hfirst
    rw [takePubKeys_of_nil hcount, List.map_nil, List.append_nil]
  | cons key keys ih =>
    obtain ⟨hfirst, hrest⟩ := hasOps_cons_iff.mp hops
    obtain ⟨hsize, hlater⟩ := List.forall_mem_cons.mp hsizes
    rw [hop] at hfirst
    obtain rfl := Option.some.inj hfirst
    have hlt := getOp_rest_lt hop
    obtain ⟨fuel, rfl⟩ := Nat.exists_eq_add_one_of_ne_zero (show fuel ≠ 0 by omega)
    have hnext : ∃ next, getOp op.rest = some next := by
      cases keys with
      | nil => exact ⟨_, (hasOps_cons_iff.mp hrest).1⟩
      | cons next keys => exact ⟨_, (hasOps_cons_iff.mp hrest).1⟩
    obtain ⟨next, hnext⟩ := hnext
    rw [takePubKeys, if_pos hsize, hnext]
    dsimp only
    rw [ih hlater hrest hnext (show op.rest.length ≤ fuel by omega), List.append_assoc]
    rfl

theorem matchOp_small {op : ScriptOp} (hsmall : OP_1 ≤ op.opcode ∧ op.opcode ≤ OP_16) :
    matchOp standard op OP_SMALLINTEGER = some [[BitVec.ofNat 8 (decodeOpN op.opcode)]] := by
  rw [matchOp, if_neg (by decide), if_neg (by decide), if_pos rfl, if_pos (.inr hsmall)]

def bareSolutions (required count : ScriptOp) (keys : List Bytes) : List Bytes :=
  [BitVec.ofNat 8 (decodeOpN required.opcode)] :: keys
    ++ [[BitVec.ofNat 8 (decodeOpN count.opcode)]]

theorem matchOps_bareMultisig {required count : ScriptOp} {keys more : List ScriptOp}
    (hrequired : OP_1 ≤ required.opcode ∧ required.opcode ≤ OP_16)
    (hcount : OP_1 ≤ count.opcode ∧ count.opcode ≤ OP_16)
    (hsizes : ∀ key ∈ keys, isPubKeySize key.data = true)
    (hops : HasOps script (required :: keys ++ count :: more)) :
    matchOps standard multisigTemplate script []
      = (expectOp OP_CHECKMULTISIG count.rest).map fun rest =>
        (rest, bareSolutions required count (keys.map ScriptOp.data)) := by
  obtain ⟨hop, hrest⟩ := hasOps_cons_iff.mp hops
  have hcountData : count.data = [] :=
    hops.data_eq_nil (List.mem_append_right _ (.head _)) (small_plain hcount)
  have hnext : ∃ next, getOp required.rest = some next := by
    cases keys with
    | nil => exact ⟨_, (hasOps_cons_iff.mp hrest).1⟩
    | cons next keys => exact ⟨_, (hasOps_cons_iff.mp hrest).1⟩
  obtain ⟨next, hnext⟩ := hnext
  rw [matchOps, hop]
  dsimp only
  rw [matchOp_small hrequired]
  dsimp only
  rw [matchOps, hnext]
  dsimp only
  rw [takePubKeys_ops hsizes hcountData hrest hnext (Nat.le_refl _)]
  rw [matchOp_small hcount]
  dsimp only
  rw [matchOps_checks (by
    intro opcode hmem
    obtain rfl := List.mem_singleton.mp hmem
    exact ⟨by decide, by decide⟩)]
  have hexpect : expectOps [OP_CHECKMULTISIG] count.rest
      = expectOp OP_CHECKMULTISIG count.rest := by
    rw [expectOps, List.foldlM_cons]
    cases expectOp OP_CHECKMULTISIG count.rest with
    | none => rfl
    | some rest => rfl
  rw [hexpect]
  rfl

/-- A multisignature that `Solver` finds is one of its template. -/
theorem matchOps_of_solver (hok : (solver standard script).ok = true)
    (htype : (solver standard script).type = .multisig) :
    ∃ rest, matchOps standard multisigTemplate script []
      = some (rest, (solver standard script).solutions) := by
  rw [solver] at hok htype ⊢
  cases hfind : findTemplate standard script with
  | none =>
    rw [hfind] at hok
    cases hok
  | some found =>
    obtain ⟨type, solutions⟩ := found
    rw [hfind] at htype
    subst htype
    obtain ⟨⟨type, template⟩, hmem, hmatch⟩ := List.exists_of_findSome?_eq_some hfind
    obtain ⟨found, hfound, hpair⟩ := Option.map_eq_some_iff.mp hmatch
    cases hpair
    have htemplate : template = multisigTemplate := by
      rw [templates, List.mem_append] at hmem
      obtain hmem | hmem := hmem
      · simpa using hmem
      obtain ⟨data, -, hpair⟩ := List.mem_map.mp hmem
      cases hpair
    subst htemplate
    rw [matchWithDrops_eq (by decide)] at hfound
    obtain ⟨⟨rest, found⟩, hmatch, hdrops⟩ := Option.bind_eq_some_iff.mp hfound
    dsimp only at hdrops
    split at hdrops
    · cases hdrops
      exact ⟨rest, hmatch⟩
    cases hdrops

theorem alike_bareMultisig {required count check : ScriptOp} {keys others : List ScriptOp}
    (halike : List.Forall₂ AlikeOp (required :: keys ++ [count, check]) others) :
    ∃ required' count' check' keys', others = required' :: keys' ++ [count', check']
      ∧ AlikeOp required required' ∧ AlikeOp count count'
      ∧ keys'.map ScriptOp.data = keys.map ScriptOp.data := by
  obtain _ | ⟨hrequired, htail⟩ := halike
  rename_i required' others'
  have hkeys : ∃ count' check' keys', others' = keys' ++ [count', check']
      ∧ AlikeOp count count' ∧ keys'.map ScriptOp.data = keys.map ScriptOp.data := by
    induction keys generalizing others' with
    | nil =>
      obtain _ | ⟨hcount, hcheck⟩ := htail
      obtain _ | ⟨hcheck, hnil⟩ := hcheck
      cases hnil
      exact ⟨_, _, [], rfl, hcount, rfl⟩
    | cons key keys ih =>
      obtain _ | ⟨hkey, hrest⟩ := htail
      obtain ⟨count', check', keys', rfl, hcount, hdata⟩ := ih hrest
      exact ⟨count', check', _ :: keys', rfl, hcount, by
        rw [List.map_cons, List.map_cons, hkey.data, hdata]⟩
  obtain ⟨count', check', keys', rfl, hcount, hdata⟩ := hkeys
  exact ⟨required', count', check', keys', rfl, hrequired, hcount, hdata⟩

theorem firstByte_bareSolutions {required count : ScriptOp} {keys : List Bytes}
    (hrequired : OP_1 ≤ required.opcode ∧ required.opcode ≤ OP_16) :
    firstByte ((bareSolutions required count keys).headD []) = smallInteger required := by
  have heq := decodeOpN_eq hrequired
  show (BitVec.ofNat 8 (decodeOpN required.opcode)).toNat = smallInteger required
  rw [BitVec.toNat_ofNat, Nat.mod_eq_of_lt (by omega), heq, smallInteger]

/-- With the old extraction a spending of a bare multisignature needs the signatures, when only
dropped elements stand behind it. -/
theorem needsSignatures_10008 (hbehind : OnlyDropsBehind script) :
    NeedsSignatures env script (extract10008 env.script standard script) := by
  obtain ⟨required, count, check, keys, drops, hbare, hsizes, hops⟩ := hbehind
  intro hok htype tx nIn flags scriptSig sigOps hverify
  obtain ⟨signers, hsigners, hsublist, hchecked⟩ := verifyScript_bareMultisig hbare hops hverify
  have hop := (hasOps_cons_iff.mp hops).1
  have hrequired := hbare.required_small
  have hhead : ¬(required.opcode = OP_DUP ∨ required.opcode = OP_HASH160) := by
    rintro (heq | heq)
    · exact absurd hrequired.2 (by rw [heq]; decide)
    · exact absurd hrequired.2 (by rw [heq]; decide)
  rw [extract10008, hop] at hok htype ⊢
  dsimp only at hok htype ⊢
  rw [if_neg hhead] at hok htype ⊢
  cases hnull : isStandardNullDataFor standard false script with
  | true =>
    rw [hnull] at hok
    cases hok
  | false =>
    rw [hnull, if_neg Bool.false_ne_true] at hok htype
    rw [if_neg Bool.false_ne_true]
    rw [extractFull] at hok htype ⊢
    -- a multisignature is found, with the keys of the script
    cases hsolved : (solver standard (removeOpDrops script)).ok with
    | false =>
      rw [hsolved] at hok
      cases hok
    | true =>
      rw [hsolved, if_neg (by decide)] at hok htype
      rw [if_neg (by decide)]
      by_cases hdata : (solver standard (removeOpDrops script)).type = .nullData
      · rw [if_pos hdata] at hok
        cases hok
      rw [if_neg hdata] at hok htype ⊢
      by_cases hmultisig : (solver standard (removeOpDrops script)).type = .multisig
      · rw [if_pos hmultisig] at hok htype ⊢
        obtain ⟨others, halike, hothers⟩ := removeOpDrops_bareMultisig hbare hsizes hops
        obtain ⟨required', count', check', keys', rfl, hrequiredAlike, hcountAlike, hkeys⟩ :=
          alike_bareMultisig halike
        have hrequiredCode := hrequiredAlike.plain (small_plain hrequired)
        have hcountCode := hcountAlike.plain (small_plain hbare.count_small)
        have hsizes' : ∀ key ∈ keys', isPubKeySize key.data = true := by
          intro key hmem
          have hmap : key.data ∈ keys.map ScriptOp.data := by
            rw [← hkeys]
            exact List.mem_map_of_mem hmem
          obtain ⟨other, hother, heq⟩ := List.mem_map.mp hmap
          rw [← heq]
          exact hsizes other hother
        obtain ⟨rest, hmatch⟩ := matchOps_of_solver hsolved hmultisig
        rw [matchOps_bareMultisig (by rw [hrequiredCode]; exact hrequired)
          (by rw [hcountCode]; exact hbare.count_small) hsizes' hothers] at hmatch
        obtain ⟨_, -, hpair⟩ := Option.map_eq_some_iff.mp hmatch
        have hsolutions := (Prod.mk.inj hpair).2
        have hmiddle : multisigSolutions (bareSolutions required' count'
            (keys'.map ScriptOp.data)) = keys.map ScriptOp.data := by
          rw [bareSolutions, multisigSolutions, List.cons_append, List.tail_cons,
            List.dropLast_concat, hkeys]
        rw [← hsolutions] at hok ⊢
        rw [hmiddle, firstByte_bareSolutions (by rw [hrequiredCode]; exact hrequired)]
        refine ⟨signers, ?_, signers_subperm hsublist hchecked, hchecked⟩
        rw [hsigners, smallInteger, smallInteger, hrequiredCode]
      rw [if_neg hmultisig] at hok htype
      split at htype
      · exact absurd htype hmultisig
      exact absurd htype hmultisig

end Signers

def GoodCondition (env : ScriptEnv) (standard : StandardEnv) (script : Bytes) : Prop :=
  if standard.fixedDestinationExtraction then FixedCondition env script
  else Condition10008 env standard script

/-- An extraction is good exactly where its condition holds.  With the fix the spendings need the
signatures that it names, and before the fix they do when only dropped elements stand behind a bare
multisignature. -/
theorem extract_isGood_iff (env : CheckEnv) (standard : StandardEnv) (script : Bytes) :
    ((extract env.script standard script).IsGood ↔ GoodCondition env.script standard script)
      ∧ (standard.fixedDestinationExtraction = true ∨ OnlyDropsBehind script →
        NeedsSignatures env script (extract env.script standard script)) := by
  rw [extract, GoodCondition]
  cases standard.fixedDestinationExtraction with
  | true => exact ⟨extractFixed_isGood_iff, fun _ => needsSignatures_fixed⟩
  | false =>
    refine ⟨extract10008_isGood_iff, ?_⟩
    rintro (hfixed | hbehind)
    · cases hfixed
    exact needsSignatures_10008 hbehind

/-- Toy functions in place of the hashes and of the curve. -/
def openEnv : CheckEnv where
  params := ChainParams.defaults
  maxScriptElementSize := 8192
  hashes := ⟨fun _ => 0, fun _ => 0, fun _ => 0, fun _ => 0, fun _ => 0⟩
  checkLowS := fun _ => true
  ecdsaVerify := fun _ _ _ => true
  extractDestinations10008 := fun _ => ⟨false, .nonstandard, []⟩
  permissions := Permission.Store.zero .empty .empty
  maxMoney := 0
  coinbaseMaturity := 60

/-- One of one key, which is behind the script. -/
def oneOfOne : Bytes :=
  OP_1 :: 33 :: 2 :: List.replicate 32 0 ++ [OP_1, OP_CHECKMULTISIG]

/-- The extraction of a bare multisignature with the fix. -/
theorem oneOfOne_isGood : ((extract openEnv.script StandardEnv.defaults oneOfOne).IsGood
        ↔ GoodCondition openEnv.script StandardEnv.defaults oneOfOne)
      ∧ NeedsSignatures openEnv oneOfOne
        (extract openEnv.script StandardEnv.defaults oneOfOne) := by
  obtain ⟨hgood, hneeds⟩ := extract_isGood_iff openEnv StandardEnv.defaults oneOfOne
  exact ⟨hgood, hneeds (.inl rfl)⟩

/-- So neither is good there. -/
theorem empty_not_isGood : ¬(extract openEnv.script StandardEnv.defaults []).IsGood
      ∧ ¬(extract openEnv.script
        { StandardEnv.defaults with fixedDestinationExtraction := false } []).IsGood := by
  constructor
  · exact not_isGood_empty
  exact not_isGood_empty

end Amberchain.Interpreter
