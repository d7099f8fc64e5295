import Amberchain.Interpreter.Unspendable
import Amberchain.Miner.AdminFee
import Amberchain.Miner.SignatureSpec
import Amberchain.Validation.Progress

/-!
# Nodes and miners disagree

Two nodes take the same decision on every block just when they demand the same, and a block
that a miner built passes the check of a node just when the node demands the part that the
miner gave.  Nothing makes two nodes read the same rule.
-/

namespace Amberchain.Miner

open Interpreter (isUnspendable_iff)
open Script (HasOps getOp_plain getOp_pushData_append)
open Transaction (TxOut)
open Validation (BlockEnv getBlockValue toAmount)

namespace SignEnv

variable {H K : Type} [DecidableEq H] {genesis : H} {env : SignEnv H K}
variable {hash160 : Bytes → Hash160}

/-! ## Two nodes -/

def SameDecision (env : SignEnv H K) (hash160 : Bytes → Hash160) (left right : Node genesis) :
    Prop :=
  ∀ block : Block H, (∀ vout ∈ env.coinbases block, ∀ out ∈ vout, IsAmount out.value) →
    block.hashPrevBlock ∈ left.mapBlockIndex → block.hashPrevBlock ∈ right.mapBlockIndex →
    env.acceptsAdminFee hash160 left block = env.acceptsAdminFee hash160 right block

/-- A block behind the first one, with a coinbase that has some outputs. -/
def probeBlock (env : SignEnv H K) (genesis : H) (vout : List TxOut) : Block H where
  nVersion := 1
  hashPrevBlock := genesis
  hashMerkleRoot := env.zero
  nTime := 0
  nBits := 0
  nNonce := 0
  vtx := [⟨1, [⟨env.zero, 0xffffffff, [], 0xffffffff⟩], vout, 0⟩]
  vMerkleTree := []
  nSigHashType := BLOCKSIGHASH_UNKNOWN
  nMerkleTreeType := MERKLETREE_UNKNOWN
  vSigner := []

theorem coinbases_probeBlock (vout : List TxOut) :
    env.coinbases (env.probeBlock genesis vout) = [vout] := by
  simp [coinbases, probeBlock, isCoinBase]

variable {left right : Node genesis}

theorem SameDecision.probe
    (hsame : env.SameDecision hash160 left right) {paid part : ℤ} (id : Hash160)
    (hpaid : IsAmount paid) (hpart : IsAmount part) :
    acceptsUnder (ruleOf hash160 left) [Miner.probe paid part id] =
      acceptsUnder (ruleOf hash160 right) [Miner.probe paid part id] := by
  have hdecision := hsame (env.probeBlock genesis (Miner.probe paid part id)) (by
    rw [coinbases_probeBlock]
    intro vout hvout out hout
    cases List.mem_singleton.mp hvout
    rcases List.mem_cons.mp hout with rfl | hout
    · exact hpaid
    cases List.mem_singleton.mp hout
    exact hpart) left.genesis_mem right.genesis_mem
  rwa [acceptsAdminFee_eq, acceptsAdminFee_eq, coinbases_probeBlock] at hdecision

theorem SameDecision.symm
    (hsame : env.SameDecision hash160 left right) : env.SameDecision hash160 right left :=
  fun block hamounts hright hleft => (hsame block hamounts hleft hright).symm

theorem SameDecision.demand (hsame : env.SameDecision hash160 left right) {ratio : ℚ} {id : Hash160}
    (hrule : ruleOf hash160 left = some (ratio, id)) :
    ∃ ratio', ruleOf hash160 right = some (ratio', id) ∧
      ∀ total < 2 ^ 63, ∀ fee, share ratio total = some fee → share ratio' total = some fee := by
  have hratio := ruleOf_pos hrule
  obtain ⟨paid, part, hpaid, hpart, hrefused⟩ := exists_refused hratio id
  have hother := hsame.probe id hpaid hpart
  rw [hrule, hrefused] at hother
  cases hright : ruleOf hash160 right with
  | none =>
    rw [hright] at hother
    cases hother
  | some rule =>
    obtain ⟨ratio', id'⟩ := rule
    have hid : id = id' := by
      by_contra hne
      rw [hright, acceptsUnder_probe_other hne] at hother
      cases hother
    subst hid
    refine ⟨ratio', rfl, fun total htotal fee hshare => ?_⟩
    obtain ⟨-, hpos, hlt⟩ := share_eq_some.mp hshare
    have hsum : total - fee + fee = total := by omega
    have hleft : IsAmount (total - fee) := ⟨by omega, by omega⟩
    have hfee : IsAmount fee := ⟨by omega, by omega⟩
    have haccepts := hsame.probe id hleft hfee
    rw [hrule, hright, Bool.eq_iff_iff,
      acceptsUnder_probe id hratio (by omega) hpos (by omega),
      acceptsUnder_probe id (ruleOf_pos hright) (by omega) hpos (by omega), hsum] at haccepts
    exact haccepts.mp hshare

theorem sameDecision_iff (left right : Node genesis) : env.SameDecision hash160 left right ↔
      SameDemand (ruleOf hash160 left) (ruleOf hash160 right) := by
  constructor
  · intro hsame
    cases hleft : ruleOf hash160 left with
    | none =>
      cases hright : ruleOf hash160 right with
      | none => exact trivial
      | some rule =>
        obtain ⟨ratio', hrule, -⟩ := hsame.symm.demand hright
        rw [hleft] at hrule
        cases hrule
    | some rule =>
      obtain ⟨ratio, id⟩ := rule
      obtain ⟨ratio', hright, hshare⟩ := hsame.demand hleft
      obtain ⟨ratio'', hleft', hshare'⟩ := hsame.symm.demand hright
      rw [hleft] at hleft'
      cases hleft'
      rw [hright]
      exact ⟨rfl, fun total htotal =>
        Option.ext fun fee => ⟨hshare total htotal fee, hshare' total htotal fee⟩⟩
  intro hsame block hamounts _ _
  rw [acceptsAdminFee_eq, acceptsAdminFee_eq]
  exact acceptsUnder_congr (fun _ _ => ruleOf_pos) (fun _ _ => ruleOf_pos) hsame hamounts

end SignEnv

/-! ## The outputs of a built block -/

theorem exists_signatureScript (sig : Bytes) (hashType : BitVec 32) (key : Bytes) :
    ∃ rest, signatureScript sig hashType key = OP_RETURN :: rest := by
  have hfold : ∀ (elements : List Bytes) (script : Bytes),
      ∃ rest, elements.foldl (fun script element => script ++ pushData element) script =
        script ++ rest := by
    intro elements
    induction elements with
    | nil => exact fun script => ⟨[], (List.append_nil _).symm⟩
    | cons element elements ih =>
      intro script
      obtain ⟨rest, hrest⟩ := ih (script ++ pushData element)
      exact ⟨pushData element ++ rest, by rw [List.foldl_cons, hrest, List.append_assoc]⟩
  unfold signatureScript
  split
  · exact hfold _ _
  exact ⟨[], rfl⟩

theorem isUnspendable_keyScript (id : Hash160) : isUnspendable (keyScript id) = false := by
  obtain ⟨opcode, hpush, hop⟩ := getOp_pushData_append (Script.length_addressBytes id)
    [OP_EQUALVERIFY, OP_CHECKSIG]
  let tail := pushData (putLE id.toNat 20) ++ [OP_EQUALVERIFY, OP_CHECKSIG]
  have hops : HasOps (keyScript id) [⟨OP_DUP, [], OP_HASH160 :: tail⟩, ⟨OP_HASH160, [], tail⟩,
      ⟨opcode, putLE id.toNat 20, [OP_EQUALVERIFY, OP_CHECKSIG]⟩,
      ⟨OP_EQUALVERIFY, [], [OP_CHECKSIG]⟩, ⟨OP_CHECKSIG, [], []⟩] := by
    exact .cons (getOp_plain (by decide) _) (.cons (getOp_plain (by decide) _) (.cons hop
      (.cons (getOp_plain (by decide) _) (.cons (getOp_plain (by decide) _) .nil))))
  rw [Bool.eq_false_iff, Ne, isUnspendable_iff hops (by
    rw [keyScript, Script.length_keyScript]
    decide)]
  rintro ⟨op, hmem, hreturn⟩
  simp only [List.mem_cons, List.not_mem_nil, or_false] at hmem
  rcases hmem with rfl | rfl | rfl | rfl | rfl
  · exact absurd hreturn (show OP_DUP ≠ OP_RETURN by decide)
  · exact absurd hreturn (show OP_HASH160 ≠ OP_RETURN by decide)
  · dsimp only at hreturn
    rw [hreturn] at hpush
    exact absurd hpush (by decide)
  · exact absurd hreturn (by decide)
  exact absurd hreturn (by decide)

namespace SignEnv

variable {H K : Type} [DecidableEq H] {genesis : H} {env : SignEnv H K}
variable {hash160 : Bytes → Hash160}

theorem opReturnOutput_eq_none {vout : List TxOut}
    (hspendable : ∀ out ∈ vout, isUnspendable out.scriptPubKey = false) :
    opReturnOutput vout = none := by
  have hfold : ∀ marked : List (TxOut × ℕ), (∀ out ∈ marked, isUnspendable out.1.scriptPubKey = false) →
      marked.foldl (fun found out =>
        if isUnspendable out.1.scriptPubKey then some out.2 else found) none = none := by
    intro marked hmarked
    induction marked with
    | nil => rfl
    | cons out marked ih =>
      rw [List.foldl_cons, hmarked out (.head _)]
      exact ih fun other hother => hmarked other (.tail _ hother)
  refine hfold _ fun out hout => hspendable out.1 ?_
  exact List.mem_of_getElem? (List.mem_zipIdx_iff_getElem?.mp hout)

omit [DecidableEq H] in
theorem keptOutputs_eq_filter {vout : List TxOut}
    (hspendable : ∀ out ∈ vout, isUnspendable out.scriptPubKey = false) : env.keptOutputs vout =
      vout.filter fun out => out.value ≠ 0 ∨ env.permissionsBlock = 0 := by
  have hmap : vout = vout.zipIdx.map Prod.fst := (List.zipIdx_map_fst 0 vout).symm
  unfold keptOutputs
  rw [opReturnOutput_eq_none hspendable]
  conv_rhs => rw [hmap]
  rw [List.filter_map]
  congr 1
  apply List.filter_congr
  intro out _
  simp

/-- The outputs of a coinbase to keys, of which some without a value are missing, and outputs
that start with `OP_RETURN`. -/
structure BuiltFrom (split built : List TxOut) : Prop where
  exists_parts : ∃ (keep : TxOut → Bool) (tail : List TxOut), built = split.filter keep ++ tail ∧
    (∀ out, keep out = false → out.value = 0) ∧
    ∀ out ∈ tail, out.value = 0 ∧ ∃ rest, out.scriptPubKey = OP_RETURN :: rest

omit [DecidableEq H] in
theorem isUnspendable_splitValue {node : Node genesis} {id : Hash160} {value : ℤ} {out : TxOut}
    (hout : out ∈ splitValue hash160 node (keyScript id) value) :
    isUnspendable out.scriptPubKey = false := by
  unfold splitValue at hout
  split at hout
  · rcases List.mem_cons.mp hout with rfl | hout
    · exact isUnspendable_keyScript _
    cases List.mem_singleton.mp hout
    exact isUnspendable_keyScript _
  cases List.mem_singleton.mp hout
  exact isUnspendable_keyScript _

theorem filter_poolTxs (txs : List env.PoolTx) :
    (txs.map Subtype.val).filter env.isCoinBase = [] := by
  rw [List.filter_eq_nil_iff]
  intro tx htx
  obtain ⟨poolTx, -, rfl⟩ := List.mem_map.mp htx
  rw [poolTx.property]
  exact Bool.false_ne_true

theorem isCoinBase_coinbaseOf (template : env.Template) (vout : List TxOut) :
    env.isCoinBase (env.coinbaseOf template vout) = true :=
  decide_eq_true ⟨rfl, rfl⟩

/-- A built block has one coinbase, whose outputs are the split value and the signature. -/
theorem coinbases_buildBlock {rewards : BlockEnv} {node : Node genesis}
    {template : env.Template} {block : Block H}
    (hbuild : env.buildBlock rewards hash160 node template = (true, block)) :
    ∃ built, env.coinbases block = [built] ∧
      BuiltFrom (splitValue hash160 node (keyScript (hash160 template.key))
        (getBlockValue rewards template.nHeight template.nFees)) built := by
  let split := splitValue hash160 node (keyScript (hash160 template.key))
    (getBlockValue rewards template.nHeight template.nFees)
  have hcoins : ∀ vout, ((env.coinbaseOf template vout :: template.txs.map Subtype.val).filter
      env.isCoinBase).map Tx.vout = [vout] := by
    intro vout
    rw [List.filter_cons_of_pos (isCoinBase_coinbaseOf template vout), filter_poolTxs]
    rfl
  unfold buildBlock at hbuild
  cases hmulti : env.params.isProtocolMultichain with
  | false =>
    refine ⟨split, ?_, ⟨fun _ => true, [], by simp [split], by simp, by simp⟩⟩
    unfold createBlockSignature at hbuild
    rw [hmulti] at hbuild
    cases hbuild
    exact hcoins split
  | true =>
    obtain ⟨front, back, coinBase, key, hsigns⟩ :=
      createBlockSignature_signs hmulti (congrArg Prod.fst hbuild)
    rw [hbuild] at hsigns
    have hfirst : env.coinbaseOf template split :: template.txs.map Subtype.val =
        front ++ coinBase :: back := hsigns.vtx
    cases front with
    | cons head front =>
      obtain ⟨rfl, -⟩ := List.cons.inj hfirst
      have hnot := hsigns.notBefore _ (.head _)
      rw [isCoinBase_coinbaseOf] at hnot
      cases hnot
    | nil =>
      obtain ⟨rfl, rfl⟩ := List.cons.inj hfirst
      obtain ⟨rest, hrest⟩ := exists_signatureScript (env.sign key (env.verifiedHash
        { env.createNewBlock rewards hash160 node template with
          vtx := [] ++ env.coinbaseOf template (env.keptOutputs split) ::
            template.txs.map Subtype.val })) BLOCKSIGHASH_NO_SIGNATURE_AND_NONCE template.key
      let keep : TxOut → Bool := fun out => out.value ≠ 0 ∨ env.permissionsBlock = 0
      refine ⟨split.filter keep ++ [⟨0, OP_RETURN :: rest⟩], ?_,
        ⟨keep, [⟨0, OP_RETURN :: rest⟩], rfl, ?_, ?_⟩⟩
      · unfold coinbases
        rw [hsigns.signedVtx]
        refine (hcoins _).trans ?_
        rw [← keptOutputs_eq_filter fun out hout => isUnspendable_splitValue hout, ← hrest]
        rfl
      · intro out hkeep
        by_contra hvalue
        rw [decide_eq_false_iff_not] at hkeep
        exact hkeep (.inl hvalue)
      intro out hout
      cases List.mem_singleton.mp hout
      exact ⟨rfl, rest, rfl⟩

end SignEnv

/-! ## What a built block pays -/

section Built

variable {split built : List TxOut}

theorem sum_filter {keep : TxOut → Bool} (hkeep : ∀ out, keep out = false → out.value = 0) :
    ((split.filter keep).map TxOut.value).sum = (split.map TxOut.value).sum := by
  induction split with
  | nil => rfl
  | cons out split ih =>
    cases hout : keep out with
    | true => rw [List.filter_cons_of_pos hout, List.map_cons, List.map_cons, List.sum_cons,
        List.sum_cons, ih]
    | false =>
      rw [List.filter_cons_of_neg (by rw [hout]; exact Bool.false_ne_true), ih, List.map_cons,
        List.sum_cons, hkeep out hout, zero_add]

theorem SignEnv.BuiltFrom.sum_eq (hbuilt : SignEnv.BuiltFrom split built) :
    (built.map TxOut.value).sum = (split.map TxOut.value).sum := by
  obtain ⟨keep, tail, rfl, hkeep, htail⟩ := hbuilt.exists_parts
  have hzero : (tail.map TxOut.value).sum = 0 :=
    List.sum_eq_zero fun value hvalue => by
      obtain ⟨out, hout, rfl⟩ := List.mem_map.mp hvalue
      exact (htail out hout).1
  rw [List.map_append, List.sum_append, sum_filter hkeep, hzero, add_zero]

theorem SignEnv.BuiltFrom.nonneg_iff (hbuilt : SignEnv.BuiltFrom split built) :
    (∀ out ∈ built, 0 ≤ out.value) ↔ ∀ out ∈ split, 0 ≤ out.value := by
  obtain ⟨keep, tail, rfl, hkeep, htail⟩ := hbuilt.exists_parts
  constructor
  · intro hnonneg out hout
    cases hkept : keep out with
    | true => exact hnonneg out (List.mem_append_left _ (List.mem_filter.mpr ⟨hout, hkept⟩))
    | false => rw [hkeep out hkept]
  intro hnonneg out hout
  rcases List.mem_append.mp hout with hmem | hmem
  · exact hnonneg out (List.mem_filter.mp hmem).1
  rw [(htail out hmem).1]

def payTo (id : Hash160) (fees : PaidFees) (value : ℤ) (other : Hash160) : PaidFees :=
  if other = id then { fees with adminFee := value } else { fees with txFee := value }

theorem outputRounds_tail {id : Hash160} {fees : PaidFees} {tail : List TxOut}
    (htail : ∀ out ∈ tail, out.value = 0 ∧ ∃ rest, out.scriptPubKey = OP_RETURN :: rest) :
    tail.foldlM (outputRound (Script.scriptToString (keyScript id))) fees = .ok fees := by
  induction tail with
  | nil => rfl
  | cons out tail ih =>
    obtain ⟨-, rest, hscript⟩ := htail out (.head _)
    have hlike : startsLikeKey out.scriptPubKey = .ok false := by
      rw [hscript]
      cases rest with
      | nil => rfl
      | cons second rest => exact congrArg Except.ok (decide_eq_false fun hboth =>
        absurd hboth.1 (show OP_RETURN ≠ OP_DUP by decide))
    have hround : outputRound (Script.scriptToString (keyScript id)) fees out = .ok fees := by
      unfold outputRound
      rw [hlike]
    rw [outputRounds_cons hround]
    exact ih fun other hother => htail other (.tail _ hother)

/-- What a coinbase with one output to a key pays, when the output may be missing without a
value. -/
theorem SignEnv.BuiltFrom.pays_one {id miner : Hash160} {value : ℤ}
    (hbuilt : SignEnv.BuiltFrom [⟨value, keyScript miner⟩] built) :
    built.foldlM (outputRound (Script.scriptToString (keyScript id))) (⟨0, 0⟩ : PaidFees) =
      .ok (payTo id ⟨0, 0⟩ value miner) := by
  obtain ⟨keep, tail, rfl, hkeep, htail⟩ := hbuilt.exists_parts
  rw [List.foldlM_append]
  cases hkept : keep ⟨value, keyScript miner⟩ with
  | true =>
    rw [List.filter_cons_of_pos hkept, outputRounds_cons (outputRound_key id miner ⟨0, 0⟩ value)]
    exact outputRounds_tail htail
  | false =>
    have hvalue : value = 0 := hkeep _ hkept
    rw [List.filter_cons_of_neg (by rw [hkept]; exact Bool.false_ne_true), hvalue]
    refine (outputRounds_tail htail).trans ?_
    unfold payTo
    split_ifs <;> rfl

/-- The same for two outputs: where the second one is missing it has no value. -/
theorem SignEnv.BuiltFrom.pays_two {id miner admin : Hash160} {value fee : ℤ}
    (hbuilt : SignEnv.BuiltFrom [⟨value, keyScript miner⟩, ⟨fee, keyScript admin⟩] built) :
    ∃ fees : PaidFees,
      built.foldlM (outputRound (Script.scriptToString (keyScript id))) (⟨0, 0⟩ : PaidFees) =
        .ok fees ∧ (fees = payTo id (payTo id ⟨0, 0⟩ value miner) fee admin ∨
        fee = 0 ∧ fees = payTo id ⟨0, 0⟩ value miner) := by
  obtain ⟨keep, tail, rfl, hkeep, htail⟩ := hbuilt.exists_parts
  have hfirst : ∀ rest : List TxOut,
      ((⟨value, keyScript miner⟩ :: rest).filter keep ++ tail).foldlM
          (outputRound (Script.scriptToString (keyScript id))) (⟨0, 0⟩ : PaidFees) =
        (rest.filter keep ++ tail).foldlM (outputRound (Script.scriptToString (keyScript id)))
          (payTo id ⟨0, 0⟩ value miner) := by
    intro rest
    cases hkept : keep ⟨value, keyScript miner⟩ with
    | true =>
      rw [List.filter_cons_of_pos hkept, List.cons_append,
        outputRounds_cons (outputRound_key id miner ⟨0, 0⟩ value)]
      rfl
    | false =>
      have hvalue : value = 0 := hkeep _ hkept
      have hnone : payTo id ⟨0, 0⟩ value miner = ⟨0, 0⟩ := by
        rw [hvalue, payTo]
        split_ifs <;> rfl
      rw [List.filter_cons_of_neg (by rw [hkept]; exact Bool.false_ne_true), hnone]
  rw [hfirst]
  cases hkept : keep ⟨fee, keyScript admin⟩ with
  | true =>
    refine ⟨_, ?_, .inl rfl⟩
    rw [List.filter_cons_of_pos hkept, List.cons_append,
      outputRounds_cons (outputRound_key id admin _ fee)]
    exact outputRounds_tail htail
  | false =>
    refine ⟨_, ?_, .inr ⟨hkeep _ hkept, rfl⟩⟩
    rw [List.filter_cons_of_neg (by rw [hkept]; exact Bool.false_ne_true)]
    exact outputRounds_tail htail

/-- One coinbase is accepted unless both parts are positive and no share. -/
theorem acceptsUnder_single {ratio : ℚ} {id : Hash160} {fees : PaidFees}
    (hpays : built.foldlM (outputRound (Script.scriptToString (keyScript id)))
      (⟨0, 0⟩ : PaidFees) = .ok fees) : acceptsUnder (some (ratio, id)) [built] = true ↔
      (0 < fees.txFee → 0 < fees.adminFee → expectedAdminFee ratio fees = fees.adminFee) := by
  unfold acceptsUnder
  dsimp only
  rw [List.foldlM_cons, coinbaseRound_of_ok hpays]
  split_ifs with hrefused
  · refine iff_of_false Bool.false_ne_true fun haccepts => ?_
    exact hrefused.2.2 (haccepts hrefused.1 hrefused.2.1)
  refine iff_of_true rfl fun htx hadmin => ?_
  by_contra hne
  exact hrefused ⟨htx, hadmin, hne⟩

end Built

/-- What a node with a rule looks for in the coinbase of a miner with a rule, in what the
miner split: the part of the administrator, or what the miner kept when it is itself the
administrator of the other rule. -/
def FindsShare (miner : Hash160) (value : ℤ) : Option (ℚ × Hash160) → Option (ℚ × Hash160) → Prop
  | some (ratio, admin), some (ratio', admin') => ∀ fee, share ratio value = some fee →
      (admin = admin' → miner ≠ admin' → share ratio' value = some fee) ∧
      (admin ≠ admin' → miner = admin' → share ratio' value = some (value - fee))
  | _, _ => True

/-- Both parts are positive and one pays to the administrator: it has to be the share. -/
theorem accepts_split_iff {ratio : ℚ} {value fee paid part : ℤ} (hratio : 0 < ratio)
    (hvalue : IsAmount value) (hfee : 0 < fee) (hlt : fee < value)
    (hparts : paid = fee ∧ part = value - fee ∨ paid = value - fee ∧ part = fee) :
    (0 < paid → 0 < part → expectedAdminFee ratio ⟨paid, part⟩ = part) ↔
      share ratio value = some part := by
  unfold IsAmount at hvalue
  have hpaid : 0 < paid := by omega
  have hpart : 0 < part := by omega
  have hsum : paid + part = value := by omega
  have hexpected := @expectedAdminFee_eq_iff ratio ⟨paid, part⟩ hratio
    ⟨by dsimp only; omega, by dsimp only; omega⟩ ⟨by dsimp only; omega, by dsimp only; omega⟩
    hpaid hpart
  rw [hsum] at hexpected
  constructor
  · intro haccepts
    exact (hexpected.mp (haccepts hpaid hpart)).2
  intro hshare _ _
  exact hexpected.mpr ⟨hvalue.2, hshare⟩

/-- What the two outputs of a split pay is accepted just when the rule finds its share. -/
theorem accepts_payTo_iff {ratio : ℚ} {miner admin id : Hash160} {value fee : ℤ}
    (hratio : 0 < ratio) (hvalue : IsAmount value) (hfee : 0 < fee) (hlt : fee < value) :
    let fees := payTo id (payTo id ⟨0, 0⟩ (value - fee) miner) fee admin
    (0 < fees.txFee → 0 < fees.adminFee → expectedAdminFee ratio fees = fees.adminFee) ↔
      (admin = id → miner ≠ id → share ratio value = some fee) ∧
      (admin ≠ id → miner = id → share ratio value = some (value - fee)) := by
  by_cases hadmin : admin = id
  · by_cases hminer : miner = id
    · rw [payTo, if_pos hadmin, payTo, if_pos hminer]
      exact iff_of_true (fun htx => absurd htx (lt_irrefl (0 : ℤ)))
        ⟨fun _ hne => absurd hminer hne, fun hne => absurd hadmin hne⟩
    rw [payTo, if_pos hadmin, payTo, if_neg hminer]
    refine (accepts_split_iff hratio hvalue hfee hlt (.inr ⟨rfl, rfl⟩)).trans ?_
    exact ⟨fun hfound => ⟨fun _ _ => hfound, fun hne => absurd hadmin hne⟩,
      fun hboth => hboth.1 hadmin hminer⟩
  by_cases hminer : miner = id
  · rw [payTo, if_neg hadmin, payTo, if_pos hminer]
    refine (accepts_split_iff hratio hvalue hfee hlt (.inl ⟨rfl, rfl⟩)).trans ?_
    exact ⟨fun hfound => ⟨fun heq => absurd heq hadmin, fun _ _ => hfound⟩,
      fun hboth => hboth.2 hadmin hminer⟩
  rw [payTo, if_neg hadmin, payTo, if_neg hminer]
  exact iff_of_true (fun _ hpart => absurd hpart (lt_irrefl (0 : ℤ)))
    ⟨fun heq => absurd heq hadmin, fun _ heq => absurd heq hminer⟩

/-- Two positive payments are the two parts. -/
theorem parts_pos_of_payTo {miner admin id : Hash160} {rest fee : ℤ} {fees : PaidFees}
    (hfees : fees = payTo id (payTo id ⟨0, 0⟩ rest miner) fee admin ∨
      fee = 0 ∧ fees = payTo id ⟨0, 0⟩ rest miner)
    (htx : 0 < fees.txFee) (hpart : 0 < fees.adminFee) : 0 < fee ∧ 0 < rest := by
  rcases hfees with rfl | ⟨-, rfl⟩
  · unfold payTo at htx hpart
    split_ifs at htx hpart
    · exact absurd htx (lt_irrefl (0 : ℤ))
    · exact ⟨hpart, htx⟩
    · exact ⟨htx, hpart⟩
    · exact absurd hpart (lt_irrefl (0 : ℤ))
  unfold payTo at htx hpart
  split_ifs at htx hpart
  · exact absurd htx (lt_irrefl (0 : ℤ))
  exact absurd hpart (lt_irrefl (0 : ℤ))

/-- A rule accepts what a miner with a rule built just when it finds its share there. -/
theorem acceptsUnder_split {ratio ratio' : ℚ} {miner admin admin' : Hash160} {value : ℤ}
    {built : List TxOut} (hratio' : 0 < ratio') (hvalue : IsAmount value)
    (hbuilt : SignEnv.BuiltFrom [⟨value - truncate (value * ratio), keyScript miner⟩,
      ⟨truncate (value * ratio), keyScript admin⟩] built) :
    acceptsUnder (some (ratio', admin')) [built] = true ↔
      FindsShare miner value (some (ratio, admin)) (some (ratio', admin')) := by
  let fee := truncate (value * ratio)
  obtain ⟨fees, hpays, hfees⟩ := @SignEnv.BuiltFrom.pays_two _ admin' miner admin
    (value - fee) fee hbuilt
  rw [acceptsUnder_single hpays]
  by_cases hshare : 0 < fee ∧ fee < value
  · have hsome : share ratio value = some fee := share_eq_some.mpr ⟨rfl, hshare⟩
    have hpaid : fees = payTo admin' (payTo admin' ⟨0, 0⟩ (value - fee) miner) fee admin :=
      hfees.resolve_right fun hzero => absurd hshare.1 (by omega)
    rw [hpaid]
    refine (accepts_payTo_iff hratio' hvalue hshare.1 hshare.2).trans ?_
    constructor
    · intro hboth other hother
      cases hsome.symm.trans hother
      exact hboth
    · exact fun hall => hall fee hsome
  refine iff_of_true (fun htx hpart => ?_) (fun other hother => ?_)
  · obtain ⟨hfee, hrest⟩ := parts_pos_of_payTo hfees htx hpart
    exact absurd ⟨hfee, by omega⟩ hshare
  obtain ⟨rfl, hpos, hlt⟩ := share_eq_some.mp hother
  exact absurd ⟨hpos, hlt⟩ hshare

/-! ## A miner and a node -/

theorem isAmount_toAmount (value : ℤ) : IsAmount (toAmount value) := by
  have hlow := @Int.le_bmod value (2 ^ 64) (by decide)
  have hhigh := @Int.bmod_lt value (2 ^ 64) (by decide)
  unfold IsAmount toAmount
  omega

theorem isAmount_getBlockValue (rewards : BlockEnv) (height : ℕ) {fees : ℤ}
    (hfees : IsAmount fees) : IsAmount (getBlockValue rewards height fees) := by
  unfold getBlockValue
  dsimp only
  split_ifs
  · exact hfees
  · exact isAmount_toAmount _
  exact isAmount_toAmount _

namespace SignEnv

section Split

variable {H : Type} {genesis : H} {hash160 : Bytes → Hash160}

theorem splitValue_eq (node : Node genesis) (script : Bytes) (value : ℤ) :
    splitValue hash160 node script value =
      match ruleOf hash160 node with
      | some (ratio, id) =>
        [⟨value - truncate (value * ratio), script⟩, ⟨truncate (value * ratio), keyScript id⟩]
      | none => [⟨value, script⟩] := by
  unfold splitValue ruleOf
  cases adminRule hash160 node with
  | error thrown => rfl
  | ok rule => cases rule <;> rfl

theorem sum_splitValue (node : Node genesis) (script : Bytes) (value : ℤ) :
    ((splitValue hash160 node script value).map TxOut.value).sum = value := by
  rw [splitValue_eq]
  cases ruleOf hash160 node with
  | none => exact List.sum_singleton
  | some rule =>
    change value - truncate (value * rule.1) + (truncate (value * rule.1) + 0) = value
    omega

/-- Both parts have a value just when the whole has one and the part is not larger. -/
theorem nonneg_splitValue (node : Node genesis) (script : Bytes) (value : ℤ) :
    (∀ out ∈ splitValue hash160 node script value, 0 ≤ out.value) ↔
      0 ≤ value ∧ ∀ ratio id, ruleOf hash160 node = some (ratio, id) →
        truncate (value * ratio) ≤ value := by
  rw [splitValue_eq]
  cases hrule : ruleOf hash160 node with
  | none =>
    constructor
    · exact fun hnonneg => ⟨hnonneg _ (.head _), fun _ _ hsome => by cases hsome⟩
    intro hvalue out hout
    cases List.mem_singleton.mp hout
    exact hvalue.1
  | some rule =>
    obtain ⟨ratio, id⟩ := rule
    constructor
    · intro hnonneg
      have hrest := hnonneg _ (.head _)
      have hfee := hnonneg _ (.tail _ (.head _))
      dsimp only at hrest hfee
      refine ⟨by omega, fun ratio' id' hsome => ?_⟩
      cases hsome
      omega
    rintro ⟨hvalue, hle⟩ out hout
    rcases List.mem_cons.mp hout with rfl | hout
    · exact Int.sub_nonneg_of_le (hle ratio id rfl)
    cases List.mem_singleton.mp hout
    exact truncate_nonneg (mul_nonneg (by exact_mod_cast hvalue) (ruleOf_pos hrule).le)

/-- A node accepts what a miner built just when it finds its share there. -/
theorem acceptsUnder_built {miner checker : Node genesis} {id : Hash160} {value : ℤ}
    {built : List TxOut} (hvalue : IsAmount value)
    (hbuilt : BuiltFrom (splitValue hash160 miner (keyScript id) value) built) :
    acceptsUnder (ruleOf hash160 checker) [built] = true ↔
      FindsShare id value (ruleOf hash160 miner) (ruleOf hash160 checker) := by
  rw [splitValue_eq] at hbuilt
  cases hchecker : ruleOf hash160 checker with
  | none =>
    refine iff_of_true rfl ?_
    cases ruleOf hash160 miner <;> exact trivial
  | some rule =>
    cases hminer : ruleOf hash160 miner with
    | some rule =>
      rw [hminer] at hbuilt
      exact acceptsUnder_split (ruleOf_pos hchecker) hvalue hbuilt
    | none =>
      rw [hminer] at hbuilt
      rw [acceptsUnder_single (hbuilt.pays_one)]
      refine iff_of_true (fun htx hpart => ?_) trivial
      unfold payTo at htx hpart
      split_ifs at htx hpart
      · exact absurd htx (lt_irrefl (0 : ℤ))
      exact absurd hpart (lt_irrefl (0 : ℤ))

end Split

variable {H K : Type} [DecidableEq H] {genesis : H} {env : SignEnv H K}
variable {hash160 : Bytes → Hash160}

/-- The block passes the check of a node, and its coinbase has no negative values and pays at
most the fees and the subsidy. -/
def PassesAt (env : SignEnv H K) (rewards : BlockEnv) (hash160 : Bytes → Hash160)
    (checker : Node genesis) (template : env.Template) (block : Block H) : Prop :=
  env.acceptsAdminFee hash160 checker block = true ∧
    ∀ vout ∈ env.coinbases block, (∀ out ∈ vout, 0 ≤ out.value) ∧
      (vout.map TxOut.value).sum ≤ getBlockValue rewards template.nHeight template.nFees

/-- The value of the block can be split by the rule of the miner, and the rule of the node finds
its share. -/
structure SplitsFor (env : SignEnv H K) (rewards : BlockEnv) (hash160 : Bytes → Hash160)
    (miner checker : Node genesis) (template : env.Template) : Prop where
  nonneg : 0 ≤ getBlockValue rewards template.nHeight template.nFees
  le : ∀ ratio id, ruleOf hash160 miner = some (ratio, id) →
    truncate (getBlockValue rewards template.nHeight template.nFees * ratio) ≤
      getBlockValue rewards template.nHeight template.nFees
  finds : FindsShare (hash160 template.key)
    (getBlockValue rewards template.nHeight template.nFees) (ruleOf hash160 miner)
    (ruleOf hash160 checker)

theorem passesAt_iff {rewards : BlockEnv} {miner checker : Node genesis}
    {template : env.Template} {block : Block H}
    (hbuild : env.buildBlock rewards hash160 miner template = (true, block)) :
    env.PassesAt rewards hash160 checker template block ↔
      env.SplitsFor rewards hash160 miner checker template := by
  obtain ⟨built, hcoinbases, hbuilt⟩ := coinbases_buildBlock hbuild
  have hvalue := isAmount_getBlockValue rewards template.nHeight template.fees_amount
  have haccepts := @acceptsUnder_built H genesis hash160 miner checker _ _ _ hvalue hbuilt
  have hnonneg := hbuilt.nonneg_iff.trans (nonneg_splitValue miner _ _)
  unfold PassesAt
  rw [acceptsAdminFee_eq, hcoinbases, haccepts]
  constructor
  · rintro ⟨hfinds, hvout⟩
    obtain ⟨hzero, hle⟩ := hnonneg.mp (hvout built (.head _)).1
    exact ⟨hzero, hle, hfinds⟩
  intro hsplits
  refine ⟨hsplits.finds, fun vout hvout => ?_⟩
  cases List.mem_singleton.mp hvout
  refine ⟨hnonneg.mpr ⟨hsplits.nonneg, hsplits.le⟩, ?_⟩
  rw [hbuilt.sum_eq, sum_splitValue]

/-- Two nodes take the same decision on every block just when their rules demand the same, and
a block that one of them built passes at the other one just when its value is split as the
other one demands. -/
theorem adminFee_agreed_iff (env : SignEnv H K) (hash160 : Bytes → Hash160)
    (miner checker : Node genesis) : (env.SameDecision hash160 miner checker ↔
      SameDemand (ruleOf hash160 miner) (ruleOf hash160 checker)) ∧
    ∀ (rewards : BlockEnv) (template : env.Template) (block : Block H),
      env.buildBlock rewards hash160 miner template = (true, block) →
      (env.PassesAt rewards hash160 checker template block ↔
        env.SplitsFor rewards hash160 miner checker template) :=
  ⟨sameDecision_iff miner checker, fun _ _ _ hbuild => passesAt_iff hbuild⟩

end SignEnv

/-! ## Nodes that read different rules -/

def adminKey : Bytes :=
  2 :: List.replicate 32 1

def setsRatio (ratio : String) : List StreamEvent :=
  [.created, .item KEY_ADMINPUBLICKEY (some (.bytes adminKey)),
    .item KEY_ADMINFEERATIO (some (.bytes (ParamSet.cstr ratio)))]

def freeNode (memPool : List StreamEvent) (subscribed : Bool) : Node FreeHash.zero where
  mapBlockIndex := [.zero]
  chainActive := [[], setsRatio "0.5"]
  memPool := memPool
  subscribed := subscribed
  genesis_mem := List.mem_singleton_self _

def freeHash160 (data : Bytes) : Hash160 :=
  BitVec.ofNat 160 (getLE data data.length)

def freeTemplate : freeEnv.Template where
  key := 2 :: List.replicate 32 0
  txs := []
  nFees := 100
  fees_amount := ⟨by decide, by decide⟩
  nHeight := 1
  nVersion := 1
  hashPrevBlock := .zero
  nTime := 1
  nBits := 1

theorem ruleOf_freeNode :
    ruleOf freeHash160 (freeNode [] true) = some (1 / 2, freeHash160 adminKey) := by
  decide +kernel

theorem ruleOf_pending :
    ruleOf freeHash160 (freeNode (setsRatio "0.25") true) =
      some (1 / 4, freeHash160 adminKey) := by
  decide +kernel

theorem buildBlock_free (node : Node FreeHash.zero) :
    freeEnv.buildBlock Validation.sampleEnv freeHash160 node freeTemplate =
      (true, (freeEnv.buildBlock Validation.sampleEnv freeHash160 node freeTemplate).2) := by
  have hsigned := @SignEnv.createBlockSignature_fst FreeHash Unit _ freeEnv
    (freeEnv.createNewBlock Validation.sampleEnv freeHash160 node freeTemplate) () _ rfl
    (List.cons_ne_nil _ _) (List.find?_cons_of_pos (SignEnv.isCoinBase_coinbaseOf freeTemplate _))
  exact Prod.ext hsigned rfl

theorem splitsFor_freeNode :
    freeEnv.SplitsFor Validation.sampleEnv freeHash160 (freeNode [] true) (freeNode [] true)
      freeTemplate where
  nonneg := by
    decide
  le := by
    rw [ruleOf_freeNode]
    rintro ratio id hrule
    cases hrule
    decide +kernel
  finds := by
    rw [ruleOf_freeNode]
    refine fun fee hshare => ⟨fun _ _ => hshare, fun hne => absurd rfl hne⟩

/-- Two subscribed nodes with the same chain agree, and the block that one of them built passes
at the other one. -/
theorem adminFee_agreed_free :
    freeEnv.SameDecision freeHash160 (freeNode [] true) (freeNode [] true) ∧
      freeEnv.PassesAt Validation.sampleEnv freeHash160 (freeNode [] true) freeTemplate
        (freeEnv.buildBlock Validation.sampleEnv freeHash160 (freeNode [] true)
          freeTemplate).2 := by
  obtain ⟨hdecide, hbuilds⟩ :=
    SignEnv.adminFee_agreed_iff freeEnv freeHash160 (freeNode [] true) (freeNode [] true)
  constructor
  · apply hdecide.mpr
    rw [ruleOf_freeNode]
    exact ⟨rfl, fun _ _ => rfl⟩
  exact (hbuilds _ _ _ (buildBlock_free _)).mpr splitsFor_freeNode

/-- Two nodes that differ in their subscriptions decide differently on some block, and a node
whose memory pool changes the ratio refuses what a node with the same chain built. -/
theorem adminFee_not_agreed :
    ¬ (∀ left right : Node FreeHash.zero, left.mapBlockIndex = right.mapBlockIndex →
        left.chainActive = right.chainActive → left.memPool = right.memPool →
        freeEnv.SameDecision freeHash160 left right) ∧
      ¬ ∀ miner checker : Node FreeHash.zero, miner.mapBlockIndex = checker.mapBlockIndex →
        miner.chainActive = checker.chainActive → miner.subscribed = checker.subscribed →
        freeEnv.PassesAt Validation.sampleEnv freeHash160 checker freeTemplate
          (freeEnv.buildBlock Validation.sampleEnv freeHash160 miner freeTemplate).2 := by
  constructor
  · intro hagree
    have hsame := SignEnv.sameDecision_iff (freeNode [] true) (freeNode [] false) |>.mp
      (hagree _ _ rfl rfl rfl)
    rw [ruleOf_freeNode] at hsame
    exact hsame
  intro hpasses
  have hsplits := (SignEnv.passesAt_iff (buildBlock_free (freeNode [] true))).mp
    (hpasses (freeNode [] true) (freeNode (setsRatio "0.25") true) rfl rfl rfl)
  have hfinds := hsplits.finds
  rw [ruleOf_freeNode, ruleOf_pending] at hfinds
  have hshare := (hfinds 50 (by decide +kernel)).1 rfl (by decide +kernel)
  revert hshare
  decide +kernel

end Amberchain.Miner
