import Amberchain.Interpreter.CheckInputs
import Amberchain.Script.FastStandard

/-!
# Extracting destinations

`ExtractDestinations` with the number of signatures that it returns, for the fixed extraction and
for the one before, which leaves keys and bare multisignatures to `Solver`, on the script without
its dropped elements.
-/

namespace Amberchain.Interpreter

open Miner (pushData)
open Script

/-- What `ExtractDestinations` returns, with `nRequiredRet`. -/
structure Extraction extends Destinations where
  nRequired : ℕ
deriving DecidableEq

variable (env : ScriptEnv) (standard : StandardEnv)

/-- `nRequiredRet` of the fixed extraction: the number of a bare multisignature. -/
def fixedRequired (script : Bytes) : ℕ :=
  match getOp script with
  | none => 1
  | some op =>
    if (OP_1 ≤ op.opcode ∧ op.opcode ≤ OP_16) ∧ !isStandardNullData script then
      decodeOpN op.opcode
    else 1

/-- `ExtractDestinations` with the fix. -/
def extractFixed (script : Bytes) : Extraction :=
  match extractHead env script with
  | (type, addresses, none) => ⟨⟨false, type, addresses⟩, fixedRequired script⟩
  | (type, addresses, some rest) =>
    if onlyDrops script.length rest then ⟨⟨true, type, addresses⟩, fixedRequired script⟩
    else ⟨⟨false, .nonstandard, addresses⟩, fixedRequired script⟩

/-- The first loop of `RemoveOpDrops`: it goes on behind what cannot be read. -/
def hasReturn : ℕ → Bytes → Bool
  | 0, _ => false
  | fuel + 1, script =>
    if script = [] then false
    else
      match getOp script with
      | none => hasReturn fuel (skipOp script)
      | some op => if op.opcode = OP_RETURN then true else hasReturn fuel op.rest

/-- The second loop: the operations before the first `OP_DROP`, or `none` when there is none or
something cannot be read. -/
def opsBeforeDrop : ℕ → Bytes → Option (List ScriptOp)
  | 0, _ => none
  | fuel + 1, script =>
    match getOp script with
    | none => none
    | some op =>
      if op.opcode = OP_DROP then some []
      else (opsBeforeDrop fuel op.rest).map fun ops => op :: ops

/-- The operator `<<` of a script, with data or with an opcode. -/
def writeOp (op : ScriptOp) : Bytes :=
  if op.data ≠ [] then pushData op.data else [op.opcode]

/-- `RemoveOpDrops`: the operations before the first dropped element. -/
def removeOpDrops (script : Bytes) : Bytes :=
  if hasReturn script.length script then script
  else
    match opsBeforeDrop script.length script with
    | none => script
    | some ops => ops.dropLast.flatMap writeOp

def multisigSolutions (solutions : List Bytes) : List Bytes :=
  solutions.tail.dropLast

/-- `ExtractDestinationsFull`, with `nRequiredRet` as the caller sets it. -/
def extractFull (script : Bytes) : Extraction :=
  let destinationOnly := removeOpDrops script
  let solved := solver standard destinationOnly
  if !solved.ok then ⟨⟨false, solved.type, []⟩, 1⟩
  else if solved.type = .nullData then ⟨⟨false, .nullData, []⟩, 1⟩
  else if solved.type = .multisig then
    let addresses := ((multisigSolutions solved.solutions).filter isValidPubKey).map fun key =>
      Destination.key (env.hash160 key)
    ⟨⟨addresses ≠ [], .multisig, addresses⟩, firstByte (solved.solutions.headD [])⟩
  else
    match extractDestinationScriptValid env.hash160 destinationOnly with
    | none => ⟨⟨false, solved.type, []⟩, 1⟩
    | some address => ⟨⟨true, solved.type, [address]⟩, 1⟩

/-- Behind the destination stands nothing, or an element that is dropped and whatever follows. -/
def droppedBehind (rest : Bytes) : Bool :=
  if rest = [] then true
  else
    match getOp rest with
    | none => false
    | some op =>
      match getOp op.rest with
      | none => false
      | some drop => op.opcode ≠ OP_RETURN ∧ drop.opcode = OP_DROP

/-- The end of `ExtractDestinations10008`, which returns `true` in any case. -/
def extractBehind (type : TxnOutType) (addresses : List Destination) (rest : Bytes) : Extraction :=
  if droppedBehind rest then ⟨⟨true, type, addresses⟩, 1⟩ else ⟨⟨true, .nonstandard, []⟩, 1⟩

/-- `ExtractDestinations10008`, which reads the two hash scripts as the fixed one does. -/
def extract10008 (script : Bytes) : Extraction :=
  match getOp script with
  | none => extractBehind .nonstandard [] (skipOp script)
  | some op =>
    if op.opcode = OP_DUP ∨ op.opcode = OP_HASH160 then
      match extractHead env script with
      | (type, addresses, none) => ⟨⟨false, type, addresses⟩, 1⟩
      | (type, addresses, some rest) => extractBehind type addresses rest
    else if isStandardNullDataFor standard false script then ⟨⟨false, .nullData, []⟩, 1⟩
    else extractFull env standard script

/-- `ExtractDestinations` -/
def extract (script : Bytes) : Extraction :=
  if standard.fixedDestinationExtraction then extractFixed env script
  else extract10008 env standard script

/-- The extraction of the script model, with this one for the protocols before. -/
theorem extractDestinations_eq {params : ChainParams}
    (hfixed : params.fixedDestinationExtraction = standard.fixedDestinationExtraction)
    (henv : env.extractDestinations10008
      = fun script => (extract10008 env standard script).toDestinations) (script : Bytes) :
    extractDestinations env params script = (extract env standard script).toDestinations := by
  rw [extractDestinations, extract, hfixed]
  cases standard.fixedDestinationExtraction with
  | false =>
    rw [if_pos (by decide), if_neg (by decide), henv]
  | true =>
    rw [if_neg (by decide), extractFixed]
    generalize extractHead env script = head
    obtain ⟨-, -, rest⟩ := head
    cases rest with
    | none => rfl
    | some rest =>
      dsimp only
      split <;> rfl

/-- When the extraction succeeds, it has a type, addresses, and a number of signatures that they can
give; one address, except for a multisignature. -/
structure Extraction.IsGood (extraction : Extraction) : Prop where
  type_ne : extraction.ok = true → extraction.type ≠ .nonstandard
  addresses_ne : extraction.ok = true → extraction.addresses ≠ []
  required : extraction.ok = true →
    1 ≤ extraction.nRequired ∧ extraction.nRequired ≤ extraction.addresses.length
  single : extraction.ok = true → extraction.type ≠ .multisig → extraction.addresses.length = 1

variable {env} {standard}

theorem isGood_of_not_ok {extraction : Extraction} (hok : extraction.ok = false) :
    extraction.IsGood := by
  have hfalse : extraction.ok ≠ true := Bool.eq_false_iff.mp hok
  exact ⟨fun h => absurd h hfalse, fun h => absurd h hfalse, fun h => absurd h hfalse,
    fun h => absurd h hfalse⟩

variable {type : TxnOutType}

theorem isGood_single {address : Destination} (htype : type ≠ .nonstandard) :
    Extraction.IsGood ⟨⟨true, type, [address]⟩, 1⟩ :=
  ⟨fun _ => htype, fun _ => List.cons_ne_nil _ _, fun _ => ⟨Nat.le_refl _, Nat.le_refl _⟩,
    fun _ _ => rfl⟩

theorem not_isGood_empty {nRequired : ℕ} : ¬Extraction.IsGood ⟨⟨true, type, []⟩, nRequired⟩ :=
  fun hgood => hgood.addresses_ne rfl rfl

section Multisig

variable {script : Bytes}

theorem small_plain {opcode : Byte} (hsmall : OP_1 ≤ opcode ∧ opcode ≤ OP_16) :
    OP_PUSHDATA4 < opcode := by
  by_contra hle
  exact absurd (BitVec.le_trans hsmall.1 (BitVec.not_lt.mp hle)) (by decide)

variable {op : ScriptOp}

theorem hasOps_rest_le {ops : List ScriptOp} (hops : HasOps script ops)
    (hmem : op ∈ ops) : op.rest.length ≤ script.length := by
  induction hops with
  | nil => cases hmem
  | cons hop _ ih =>
    have hlt := getOp_rest_lt hop
    obtain rfl | hmem := List.mem_cons.mp hmem
    · omega
    have hle := ih hmem
    omega

theorem hasOps_behind {front more : List ScriptOp}
    (hops : HasOps script (front ++ op :: more)) : HasOps op.rest more := by
  induction front generalizing script with
  | nil => exact (hasOps_cons_iff.mp hops).2
  | cons first front ih => exact ih (hasOps_cons_iff.mp hops).2

theorem onlyDrops_of_ops {drops : List ScriptOp} (hdrops : IsDrops drops)
    (hops : HasOps script drops) {fuel : ℕ} (hfuel : script.length ≤ fuel) :
    onlyDrops fuel script = true := by
  induction hdrops generalizing script fuel with
  | nil =>
    obtain rfl := hasOps_nil_iff.mp hops
    cases fuel with
    | zero => rfl
    | succ fuel => rfl
  | @cons push drop rest hpush hdrop _ ih =>
    obtain ⟨hop, hnext⟩ := hasOps_cons_iff.mp hops
    obtain ⟨hdropOp, hrest⟩ := hasOps_cons_iff.mp hnext
    have hlt := getOp_rest_lt hop
    have hdropLt := getOp_rest_lt hdropOp
    obtain ⟨fuel, rfl⟩ := Nat.exists_eq_add_one_of_ne_zero (show fuel ≠ 0 by omega)
    have hne : script ≠ [] := by
      rintro rfl
      cases hop
    have hexpect : expectOp OP_DROP push.rest = some drop.rest := by
      rw [expectOp, hdropOp]
      exact if_pos hdrop
    rw [onlyDrops, if_neg hne, hop]
    dsimp only
    rw [if_neg (BitVec.not_lt.mpr hpush), hexpect]
    exact ih hrest (by omega)

theorem multisigKeys_of_ops {keys more : List ScriptOp} {count : ScriptOp}
    {found : List Destination} (hops : HasOps script (keys ++ count :: more))
    (hpush : ∀ key ∈ keys, key.opcode ≤ OP_PUSHDATA4)
    (hkeys : ∀ key ∈ keys, vectorToAddress env key.data ≠ .none)
    (hcount : OP_1 ≤ count.opcode ∧ count.opcode ≤ OP_16)
    (hlength : count.opcode.toNat - (OP_1.toNat - 1) = found.length + keys.length)
    {fuel : ℕ} (hfuel : script.length ≤ fuel) : multisigKeys env fuel script found
      = (found ++ keys.map fun key => vectorToAddress env key.data, some count.rest) := by
  induction keys generalizing script found fuel with
  | nil =>
    obtain ⟨hop, -⟩ := hasOps_cons_iff.mp hops
    have hlt := getOp_rest_lt hop
    obtain ⟨fuel, rfl⟩ := Nat.exists_eq_add_one_of_ne_zero (show fuel ≠ 0 by omega)
    rw [multisigKeys, hop]
    dsimp only
    rw [List.length_nil, Nat.add_zero] at hlength
    rw [if_pos hcount, if_pos hlength, List.map_nil, List.append_nil]
  | cons key keys ih =>
    obtain ⟨hop, hrest⟩ := hasOps_cons_iff.mp hops
    have hlt := getOp_rest_lt hop
    obtain ⟨fuel, rfl⟩ := Nat.exists_eq_add_one_of_ne_zero (show fuel ≠ 0 by omega)
    obtain ⟨hkeyPush, hpush⟩ := List.forall_mem_cons.mp hpush
    obtain ⟨hkey, hkeys⟩ := List.forall_mem_cons.mp hkeys
    have hlarge : ¬(OP_1 ≤ key.opcode ∧ key.opcode ≤ OP_16) := by
      rintro ⟨hle, -⟩
      exact absurd (BitVec.le_trans hle hkeyPush) (by decide)
    rw [List.length_cons] at hlength
    rw [multisigKeys, hop]
    dsimp only
    rw [if_neg hlarge]
    have hnext : multisigKeys env fuel key.rest (found ++ [vectorToAddress env key.data])
        = (found ++ [vectorToAddress env key.data]
          ++ keys.map fun key => vectorToAddress env key.data, some count.rest) := ih hrest hpush hkeys
      (by rw [List.length_append, List.length_singleton]; omega) (show key.rest.length ≤ fuel by
        omega)
    cases haddress : vectorToAddress env key.data with
    | none => exact absurd haddress hkey
    | key id =>
      rw [haddress] at hnext
      dsimp only
      rw [hnext, List.map_cons, haddress, List.append_assoc]
      rfl
    | script id => exact absurd haddress vectorToAddress_ne_script

theorem not_nullData_of_small {required : ScriptOp} (hop : getOp script = some required)
    (hsmall : OP_1 ≤ required.opcode ∧ required.opcode ≤ OP_16) :
    isStandardNullData script = false := by
  have hplain : OP_PUSHDATA4 < required.opcode := small_plain hsmall
  have hreturn : required.opcode ≠ OP_RETURN := by
    intro heq
    exact absurd hsmall.2 (by rw [heq]; decide)
  have htail : nullDataTail 2 script = none := by
    rw [nullDataTail, hop]
    simp only [Option.bind_eq_bind, Option.bind_some]
    rw [if_neg hreturn, if_pos hplain]
  rw [isStandardNullData, htail]

variable {addresses : List Destination}

theorem extractHead_multisig {ops : List ScriptOp}
    (hops : HasOps script ops) (hstandard : StandardOps env .multisig addresses ops) :
    ∃ rest, extractHead env script = (.multisig, addresses, some rest)
      ∧ onlyDrops script.length rest = true := by
  cases hstandard with
  | @multisig required count check keys drops hrequired hpush hkeys hcount hlength hcheck hdrops =>
    obtain ⟨hop, hrest⟩ := hasOps_cons_iff.mp hops
    have hlt := getOp_rest_lt hop
    obtain ⟨hdup, hhash, hdata⟩ : required.opcode ≠ OP_DUP ∧ required.opcode ≠ OP_HASH160
        ∧ required.data = [] := by
      refine ⟨?_, ?_, getOp_data_of_lt hop (small_plain hrequired)⟩
      · intro heq
        exact absurd hrequired.2 (by rw [heq]; decide)
      intro heq
      exact absurd hrequired.2 (by rw [heq]; decide)
    have hread : multisigKeys env script.length required.rest []
        = ([] ++ keys.map fun key => vectorToAddress env key.data, some count.rest) :=
      multisigKeys_of_ops hrest hpush hkeys hcount
      (by rw [List.length_nil, Nat.zero_add]; exact hlength)
      (show required.rest.length ≤ script.length by omega)
    obtain ⟨hcheckOp, hdropOps⟩ := hasOps_cons_iff.mp (hasOps_behind hrest)
    have hexpect : expectOp OP_CHECKMULTISIG count.rest = some check.rest := by
      rw [expectOp, hcheckOp]
      exact if_pos hcheck
    have haddress : vectorToAddress env required.data = .none := by
      rw [hdata]
      rfl
    refine ⟨check.rest, ?_, ?_⟩
    · rw [extractHead, hop]
      dsimp only
      rw [if_neg hdup, if_neg hhash, not_nullData_of_small hop hrequired,
        if_neg Bool.false_ne_true, haddress]
      rw [if_pos hrequired, hread]
      dsimp only
      rw [hexpect, List.nil_append]
    have hcheckLe := hasOps_rest_le hops (show check ∈ required :: keys ++ count :: check :: drops
      from List.mem_append_right _ (.tail _ (.head _)))
    exact onlyDrops_of_ops hdrops hdropOps hcheckLe

/-- Where the fixed extraction is good: a script without a first operation does not go on with
dropped elements alone, and a bare multisignature needs no more signatures than it has keys. -/
def FixedCondition (env : ScriptEnv) (script : Bytes) : Prop :=
  match getOp script with
  | none => onlyDrops script.length (skipOp script) = false
  | some required => ∀ addresses ops, HasOps script ops →
      StandardOps env .multisig addresses ops → decodeOpN required.opcode ≤ addresses.length

theorem extractHead_type {rest : Bytes} (hop : getOp script = some op)
    (hhead : extractHead env script = (type, addresses, some rest)) : type ≠ .nonstandard := by
  rintro rfl
  rw [extractHead, hop] at hhead
  dsimp only at hhead
  split at hhead
  · split at hhead
    · cases hhead
    obtain ⟨-, -, -, -, -, htype, -⟩ := hashed_ops hhead
    cases htype
  split at hhead
  · obtain ⟨-, -, -, -, -, htype, -⟩ := hashed_ops hhead
    cases htype
  split at hhead
  · cases hhead
  split at hhead
  · split at hhead
    · split at hhead
      · cases hhead
      split at hhead
      · cases hhead
      · cases hhead
    · cases hhead
  split at hhead
  · cases hhead
  cases hhead

theorem fixedRequired_small (hop : getOp script = some op)
    (hsmall : OP_1 ≤ op.opcode ∧ op.opcode ≤ OP_16) :
    fixedRequired script = decodeOpN op.opcode := by
  rw [fixedRequired, hop]
  dsimp only
  rw [if_pos ⟨hsmall, by rw [not_nullData_of_small hop hsmall]; rfl⟩]

theorem fixedRequired_large (hop : getOp script = some op)
    (hlarge : ¬(OP_1 ≤ op.opcode ∧ op.opcode ≤ OP_16)) : fixedRequired script = 1 := by
  rw [fixedRequired, hop]
  exact if_neg fun hboth => hlarge hboth.1

theorem decodeOpN_eq {opcode : Byte} (hsmall : OP_1 ≤ opcode ∧ opcode ≤ OP_16) :
    decodeOpN opcode = opcode.toNat - 0x50 := by
  have hzero : opcode ≠ Amberchain.OP_0 := by
    rintro rfl
    exact absurd hsmall.1 (by decide)
  rw [decodeOpN, if_neg hzero]

theorem decodeOpN_small {opcode : Byte} (hsmall : OP_1 ≤ opcode ∧ opcode ≤ OP_16) :
    1 ≤ decodeOpN opcode ∧ decodeOpN opcode ≤ 16 := by
  have hlow : 0x51 ≤ opcode.toNat := hsmall.1
  have hhigh : opcode.toNat ≤ 0x60 := hsmall.2
  rw [decodeOpN_eq hsmall]
  omega

/-- What the fixed extraction finds is good, unless a multisignature needs too many signatures. -/
theorem isGood_of_standardOps
    {ops : List ScriptOp} (hop : getOp script = some op) (hops : HasOps script ops)
    (hstandard : StandardOps env type addresses ops) :
    Extraction.IsGood ⟨⟨true, type, addresses⟩, fixedRequired script⟩
      ↔ (type = .multisig → decodeOpN op.opcode ≤ addresses.length) := by
  have hsingle (address : Destination) (htype : type ≠ .nonstandard ∧ type ≠ .multisig)
      (haddresses : addresses = [address]) (hlarge : ¬(OP_1 ≤ op.opcode ∧ op.opcode ≤ OP_16)) :
      Extraction.IsGood ⟨⟨true, type, addresses⟩, fixedRequired script⟩
        ↔ (type = .multisig → decodeOpN op.opcode ≤ addresses.length) := by
    rw [fixedRequired_large hop hlarge, haddresses]
    exact ⟨fun _ heq => absurd heq htype.2, fun _ => isGood_single htype.1⟩
  obtain ⟨first, rest, hfirst, -⟩ := hstandard.exists_head
  have hfirstOp : first = op := by
    rw [hfirst] at hops
    have hfirstOp := (hasOps_cons_iff.mp hops).1
    rw [hop] at hfirstOp
    exact (Option.some.inj hfirstOp).symm
  subst hfirstOp
  cases hstandard with
  | @pubkeyHash dup hash push verify check drops hdup hhash hpush hdata hverify hcheck hdrops =>
    cases hfirst
    exact hsingle _ (by decide) rfl (by rw [hdup]; decide)
  | @scriptHash hash push equal drops hhash hpush hdata hequal hdrops =>
    cases hfirst
    exact hsingle _ (by decide) rfl (by rw [hhash]; decide)
  | @pubkey push check drops hpush hkey hcheck hdrops =>
    cases hfirst
    refine hsingle _ (by decide) rfl ?_
    rintro ⟨hle, -⟩
    exact absurd (BitVec.le_trans hle hpush) (by decide)
  | @multisig required count check keys drops hrequired hpush hkeys hcount hlength hcheck hdrops =>
    cases hfirst
    have hpositive : 1 ≤ keys.length := by
      have hlow : 0x51 ≤ count.opcode.toNat := hcount.1
      have hone : OP_1.toNat = 0x51 := rfl
      omega
    rw [fixedRequired_small hop hrequired]
    constructor
    · intro hgood _
      exact (hgood.required rfl).2
    intro hle
    refine ⟨fun _ => nofun, fun _ hnil => ?_,
      fun _ => ⟨(decodeOpN_small hrequired).1, hle rfl⟩, fun _ hne => absurd rfl hne⟩
    have hzero := congrArg List.length hnil
    rw [List.length_map, List.length_nil] at hzero
    omega

theorem extractFixed_isGood_iff : (extractFixed env script).IsGood ↔ FixedCondition env script := by
  rw [FixedCondition, extractFixed]
  cases hop : getOp script with
  | none =>
    have hhead : extractHead env script = (.nonstandard, [], some (skipOp script)) := by
      rw [extractHead, hop]
    rw [hhead]
    dsimp only
    cases honly : onlyDrops script.length (skipOp script) with
    | false => exact ⟨fun _ => rfl, fun _ => isGood_of_not_ok rfl⟩
    | true => exact ⟨fun hgood => absurd hgood not_isGood_empty, nofun⟩
  | some op =>
    -- what the extraction finds is what the operations say
    cases hhead : extractHead env script with
    | mk type found =>
      obtain ⟨addresses, left⟩ := found
      have hmultisig {addresses' : List Destination} {ops : List ScriptOp}
          (hops : HasOps script ops) (hstandard : StandardOps env .multisig addresses' ops) :
          type = .multisig ∧ addresses = addresses' ∧ ∃ rest, left = some rest
            ∧ onlyDrops script.length rest = true := by
        obtain ⟨rest, hfound, honly⟩ := extractHead_multisig hops hstandard
        rw [hhead] at hfound
        cases hfound
        exact ⟨rfl, rfl, rest, rfl, honly⟩
      cases left with
      | none =>
        refine ⟨fun _ addresses' ops hops hstandard => ?_, fun _ => isGood_of_not_ok rfl⟩
        obtain ⟨-, -, rest, hrest, -⟩ := hmultisig hops hstandard
        cases hrest
      | some rest =>
        dsimp only
        cases honly : onlyDrops script.length rest with
        | false =>
          refine ⟨fun _ addresses' ops hops hstandard => ?_, fun _ => isGood_of_not_ok rfl⟩
          obtain ⟨-, -, rest', hrest, htrue⟩ := hmultisig hops hstandard
          cases hrest
          rw [honly] at htrue
          cases htrue
        | true =>
          rw [if_pos rfl]
          have hfound : IsStandard env script type addresses :=
            ⟨extractHead_type hop hhead, rest, hhead, honly⟩
          obtain ⟨ops, hops, hstandard⟩ := hfound.ops
          rw [isGood_of_standardOps hop hops hstandard]
          constructor
          · intro hle addresses' ops' hops' hstandard'
            obtain ⟨htype, rfl, -⟩ := hmultisig hops' hstandard'
            exact hle htype
          rintro hle rfl
          exact hle addresses ops hops hstandard

/-- Where the old extraction of a key or a multisignature is good: the valid keys of a
multisignature are enough. -/
def FullCondition (standard : StandardEnv) (destinationOnly : Bytes) : Prop :=
  (solver standard destinationOnly).ok = true →
    (solver standard destinationOnly).type = .multisig →
      ∀ keys, (multisigSolutions (solver standard destinationOnly).solutions).filter isValidPubKey
          = keys →
        keys = [] ∨ firstByte ((solver standard destinationOnly).solutions.headD []) ≤ keys.length

/-- Where the old extraction is good: there is a first operation, behind a hash script stands
nothing or a dropped element, and the valid keys of a multisignature are enough. -/
def Condition10008 (env : ScriptEnv) (standard : StandardEnv) (script : Bytes) : Prop :=
  match getOp script with
  | none => False
  | some op =>
    if op.opcode = OP_DUP ∨ op.opcode = OP_HASH160 then
      ∀ type addresses rest, extractHead env script = (type, addresses, some rest) →
        droppedBehind rest = true
    else isStandardNullDataFor standard false script = false →
      FullCondition standard (removeOpDrops script)

theorem solver_type (hok : (solver standard script).ok = true) :
    (solver standard script).type ≠ .nonstandard := by
  rw [solver] at hok ⊢
  cases hfind : findTemplate standard script with
  | none =>
    rw [hfind] at hok
    cases hok
  | some found =>
    obtain ⟨⟨type, template⟩, hmem, hmatch⟩ := List.exists_of_findSome?_eq_some hfind
    obtain ⟨-, -, rfl⟩ := Option.map_eq_some_iff.mp hmatch
    rw [templates, List.mem_append] at hmem
    rintro rfl
    obtain hmem | hmem := hmem
    · simp at hmem
    obtain ⟨template, -, hpair⟩ := List.mem_map.mp hmem
    cases hpair

theorem solver_multisig (hok : (solver standard script).ok = true)
    (htype : (solver standard script).type = .multisig) :
    multisigCounts (solver standard script).solutions = true := by
  rw [solver] at hok htype ⊢
  cases hfind : findTemplate standard script with
  | none =>
    rw [hfind] at hok
    cases hok
  | some found =>
    obtain ⟨type, solutions⟩ := found
    rw [hfind] at hok htype
    subst htype
    exact hok

theorem extractFull_isGood_iff :
    (extractFull env standard script).IsGood ↔ FullCondition standard (removeOpDrops script) := by
  rw [extractFull, FullCondition]
  cases hok : (solver standard (removeOpDrops script)).ok with
  | false => exact ⟨fun _ => nofun, fun _ => isGood_of_not_ok rfl⟩
  | true =>
    have htype := solver_type hok
    rw [if_neg (by decide)]
    by_cases hnull : (solver standard (removeOpDrops script)).type = .nullData
    · rw [hnull]
      exact ⟨fun _ _ => nofun, fun _ => isGood_of_not_ok rfl⟩
    rw [if_neg hnull]
    by_cases hmultisig : (solver standard (removeOpDrops script)).type = .multisig
    · have hcounts := solver_multisig hok hmultisig
      generalize hsolutions : (solver standard (removeOpDrops script)).solutions = solutions
        at hcounts ⊢
      have hpositive : 1 ≤ firstByte (solutions.headD []) := by
        rw [multisigCounts] at hcounts
        simp only [Bool.not_eq_true', Bool.or_eq_false_iff, decide_eq_false_iff_not] at hcounts
        omega
      rw [if_pos hmultisig]
      generalize (multisigSolutions solutions).filter isValidPubKey = keys
      cases keys with
      | nil => exact ⟨fun _ _ _ _ hkeys => .inl hkeys.symm, fun _ => isGood_of_not_ok rfl⟩
      | cons key keys =>
        constructor
        · rintro hgood - - keys' rfl
          refine .inr ?_
          have hle := (hgood.required rfl).2
          rwa [List.length_map] at hle
        intro hcondition
        obtain hnil | hle := hcondition rfl hmultisig _ rfl
        · cases hnil
        refine ⟨fun _ => nofun, fun _ => nofun, fun _ => ⟨hpositive, ?_⟩,
          fun _ hne => absurd rfl hne⟩
        rwa [List.length_map]
    rw [if_neg hmultisig]
    refine ⟨fun _ _ heq => absurd heq hmultisig, fun _ => ?_⟩
    cases extractDestinationScriptValid env.hash160 (removeOpDrops script) with
    | none => exact isGood_of_not_ok rfl
    | some address => exact isGood_single htype

theorem extractHead_hash {rest : Bytes} (hop : getOp script = some op)
    (hhash : op.opcode = OP_DUP ∨ op.opcode = OP_HASH160)
    (hhead : extractHead env script = (type, addresses, some rest)) :
    ∃ address, addresses = [address] := by
  rw [extractHead, hop] at hhead
  dsimp only at hhead
  split at hhead
  · split at hhead
    · cases hhead
    obtain ⟨push, -, -, -, -, -, haddresses⟩ := hashed_ops hhead
    exact ⟨_, haddresses.symm⟩
  rename_i hdup
  rw [if_pos (hhash.resolve_left hdup)] at hhead
  obtain ⟨push, -, -, -, -, -, haddresses⟩ := hashed_ops hhead
  exact ⟨_, haddresses.symm⟩

theorem extract10008_isGood_iff :
    (extract10008 env standard script).IsGood ↔ Condition10008 env standard script := by
  rw [extract10008, Condition10008]
  cases hop : getOp script with
  | none =>
    dsimp only
    rw [extractBehind]
    refine ⟨fun hgood => ?_, False.elim⟩
    split at hgood
    · exact not_isGood_empty hgood
    · exact not_isGood_empty hgood
  | some op =>
    dsimp only
    by_cases hhash : op.opcode = OP_DUP ∨ op.opcode = OP_HASH160
    · rw [if_pos hhash, if_pos hhash]
      cases hhead : extractHead env script with
      | mk type found =>
        obtain ⟨addresses, left⟩ := found
        cases left with
        | none =>
          refine ⟨fun _ _ _ _ hfound => ?_, fun _ => isGood_of_not_ok rfl⟩
          cases hfound
        | some rest =>
          obtain ⟨address, rfl⟩ := extractHead_hash hop hhash hhead
          dsimp only
          rw [extractBehind]
          cases hbehind : droppedBehind rest with
          | false =>
            refine ⟨fun hgood => absurd hgood not_isGood_empty, fun hcondition => ?_⟩
            have htrue := hcondition _ _ _ rfl
            rw [hbehind] at htrue
            cases htrue
          | true =>
            refine ⟨fun _ _ _ _ hfound => ?_, fun _ => isGood_single (extractHead_type hop hhead)⟩
            cases hfound
            exact hbehind
    rw [if_neg hhash, if_neg hhash]
    cases hnull : isStandardNullDataFor standard false script with
    | false =>
      rw [if_neg Bool.false_ne_true, extractFull_isGood_iff]
      exact ⟨fun hcondition _ => hcondition, fun hcondition => hcondition rfl⟩
    | true => exact ⟨fun _ => nofun, fun _ => isGood_of_not_ok rfl⟩

end Multisig

end Amberchain.Interpreter
