import Amberchain.Script.Operations

/-!
# Output scripts of the standard types

The operations of an output script in which `ExtractDestinations` finds a public key, its
hash, the hash of a script, or the keys of a bare multisignature.
-/

namespace Amberchain.Script

/-- Elements behind a destination: each a push and an `OP_DROP`. -/
inductive IsDrops : List ScriptOp → Prop
  | nil : IsDrops []
  | cons {push drop : ScriptOp} {rest : List ScriptOp} (hpush : push.opcode ≤ OP_PUSHDATA4)
      (hdrop : drop.opcode = OP_DROP) (hrest : IsDrops rest) : IsDrops (push :: drop :: rest)

/-- The operations of an output script of a standard type, and its addresses. -/
inductive StandardOps (env : ScriptEnv) : TxnOutType → List Destination → List ScriptOp → Prop
  | pubkeyHash {dup hash push verify check : ScriptOp} {drops : List ScriptOp}
      (hdup : dup.opcode = OP_DUP) (hhash : hash.opcode = OP_HASH160)
      (hpush : push.opcode ≤ OP_PUSHDATA4) (hdata : push.data.length = 20)
      (hverify : verify.opcode = OP_EQUALVERIFY) (hcheck : check.opcode = OP_CHECKSIG)
      (hdrops : IsDrops drops) :
      StandardOps env .pubkeyHash [.key (addressOf push.data)]
        (dup :: hash :: push :: verify :: check :: drops)
  | scriptHash {hash push equal : ScriptOp} {drops : List ScriptOp}
      (hhash : hash.opcode = OP_HASH160) (hpush : push.opcode ≤ OP_PUSHDATA4)
      (hdata : push.data.length = 20) (hequal : equal.opcode = OP_EQUAL)
      (hdrops : IsDrops drops) :
      StandardOps env .scriptHash [.script (addressOf push.data)] (hash :: push :: equal :: drops)
  | pubkey {push check : ScriptOp} {drops : List ScriptOp}
      (hpush : push.opcode ≤ OP_PUSHDATA4) (hkey : vectorToAddress env push.data ≠ .none)
      (hcheck : check.opcode = OP_CHECKSIG) (hdrops : IsDrops drops) :
      StandardOps env .pubkey [vectorToAddress env push.data] (push :: check :: drops)
  | multisig {required count check : ScriptOp} {keys drops : List ScriptOp}
      (hrequired : OP_1 ≤ required.opcode ∧ required.opcode ≤ OP_16)
      (hpush : ∀ key ∈ keys, key.opcode ≤ OP_PUSHDATA4)
      (hkeys : ∀ key ∈ keys, vectorToAddress env key.data ≠ .none)
      (hcount : OP_1 ≤ count.opcode ∧ count.opcode ≤ OP_16)
      (hlength : count.opcode.toNat - (OP_1.toNat - 1) = keys.length)
      (hcheck : check.opcode = OP_CHECKMULTISIG) (hdrops : IsDrops drops) :
      StandardOps env .multisig (keys.map fun key => vectorToAddress env key.data)
        (required :: keys ++ count :: check :: drops)

variable {env : ScriptEnv}

def headType (op : ScriptOp) : TxnOutType :=
  if op.opcode = OP_DUP then .pubkeyHash
  else if op.opcode = OP_HASH160 then .scriptHash
  else if op.opcode ≤ OP_PUSHDATA4 then .pubkey
  else .multisig

variable {addresses : List Destination}

theorem StandardOps.exists_head {type : TxnOutType}
    {ops : List ScriptOp} (hops : StandardOps env type addresses ops) :
    ∃ op rest, ops = op :: rest ∧ type = headType op := by
  cases hops with
  | pubkeyHash hdup => exact ⟨_, _, rfl, by rw [headType, if_pos hdup]⟩
  | scriptHash hhash => exact ⟨_, _, rfl, by rw [headType, hhash]; rfl⟩
  | @pubkey push check drops hpush =>
    have hne (opcode : Byte) (hplain : OP_PUSHDATA4 < opcode) : push.opcode ≠ opcode := by
      intro heq
      rw [heq] at hpush
      exact absurd hplain (BitVec.not_lt.mpr hpush)
    refine ⟨_, _, rfl, ?_⟩
    rw [headType, if_neg (hne _ (by decide)), if_neg (hne _ (by decide)), if_pos hpush]
  | @multisig required count check keys drops hrequired =>
    have hne (opcode : Byte) (hplain : OP_16 < opcode) : required.opcode ≠ opcode := by
      intro heq
      rw [heq] at hrequired
      exact absurd hplain (BitVec.not_lt.mpr hrequired.2)
    have hplain : ¬ required.opcode ≤ OP_PUSHDATA4 := fun hle =>
      absurd (BitVec.le_trans hrequired.1 hle) (by decide)
    refine ⟨_, _, rfl, ?_⟩
    rw [headType, if_neg (hne _ (by decide)), if_neg (hne _ (by decide)), if_neg hplain]

theorem StandardOps.type_unique {type type' : TxnOutType} {addresses addresses' : List Destination}
    {ops : List ScriptOp} (hops : StandardOps env type addresses ops)
    (hops' : StandardOps env type' addresses' ops) : type = type' := by
  obtain ⟨op, rest, rfl, rfl⟩ := hops.exists_head
  obtain ⟨op', rest', heq, rfl⟩ := hops'.exists_head
  cases heq
  rfl

variable {script rest : Bytes}

theorem expectOp_eq_some {opcode : Byte} (hexpect : expectOp opcode script = some rest) :
    ∃ op, getOp script = some op ∧ op.opcode = opcode ∧ op.rest = rest := by
  unfold expectOp at hexpect
  cases hop : getOp script with
  | none => rw [hop] at hexpect; cases hexpect
  | some op =>
    rw [hop] at hexpect
    dsimp only at hexpect
    split_ifs at hexpect with hopcode
    cases hexpect
    exact ⟨op, rfl, hopcode, rfl⟩

theorem expectOps_cons_eq_some {opcode : Byte} {opcodes : List Byte}
    (hexpect : expectOps (opcode :: opcodes) script = some rest) :
    ∃ op, getOp script = some op ∧ op.opcode = opcode ∧ expectOps opcodes op.rest = some rest := by
  obtain ⟨next, hfirst, hrest⟩ := Option.bind_eq_some_iff.mp hexpect
  obtain ⟨op, hop, hopcode, rfl⟩ := expectOp_eq_some hfirst
  exact ⟨op, hop, hopcode, hrest⟩

theorem onlyDrops_ops {fuel : ℕ} {script : Bytes} (hdrops : onlyDrops fuel script = true) :
    ∃ drops, HasOps script drops ∧ IsDrops drops := by
  induction fuel generalizing script with
  | zero =>
    have hnil : script = [] := by simpa [onlyDrops] using hdrops
    subst hnil
    exact ⟨[], .nil, .nil⟩
  | succ fuel ih =>
    rw [onlyDrops] at hdrops
    split_ifs at hdrops with hnil
    · subst hnil
      exact ⟨[], .nil, .nil⟩
    cases hop : getOp script with
    | none => rw [hop] at hdrops; cases hdrops
    | some push =>
      rw [hop] at hdrops
      dsimp only at hdrops
      split_ifs at hdrops with hplain
      cases hdrop : expectOp OP_DROP push.rest with
      | none => rw [hdrop] at hdrops; cases hdrops
      | some rest =>
        rw [hdrop] at hdrops
        obtain ⟨drop, hdropOp, hdropCode, rfl⟩ := expectOp_eq_some hdrop
        obtain ⟨drops, hops, hisDrops⟩ := ih hdrops
        exact ⟨push :: drop :: drops, .cons hop (.cons hdropOp hops),
          .cons (BitVec.not_lt.mp hplain) hdropCode hisDrops⟩

theorem opcode_le_of_data {script : Bytes} {op : ScriptOp} (hop : getOp script = some op)
    (hdata : op.data ≠ []) : op.opcode ≤ OP_PUSHDATA4 := by
  by_contra hplain
  exact hdata (getOp_data_of_lt hop (BitVec.not_le.mp hplain))

theorem ne_nil_of_vectorToAddress {data : Bytes} (haddress : vectorToAddress env data ≠ .none) :
    data ≠ [] := by
  rintro rfl
  exact haddress rfl

theorem vectorToAddress_ne_script {data : Bytes} {id : Hash160} :
    vectorToAddress env data ≠ .script id := by
  unfold vectorToAddress
  dsimp only
  split_ifs <;> nofun

theorem multisigKeys_ops {fuel : ℕ} {found addresses : List Destination}
    (hread : multisigKeys env fuel script found = (addresses, some rest)) :
    ∃ keys count, (∀ ops, HasOps rest ops → HasOps script (keys ++ count :: ops))
      ∧ (∀ key ∈ keys, key.opcode ≤ OP_PUSHDATA4)
      ∧ (∀ key ∈ keys, vectorToAddress env key.data ≠ .none)
      ∧ (OP_1 ≤ count.opcode ∧ count.opcode ≤ OP_16)
      ∧ count.opcode.toNat - (OP_1.toNat - 1) = addresses.length
      ∧ addresses = found ++ keys.map fun key => vectorToAddress env key.data := by
  induction fuel generalizing script found with
  | zero => cases hread
  | succ fuel ih =>
    rw [multisigKeys] at hread
    cases hop : getOp script with
    | none => rw [hop] at hread; cases hread
    | some op =>
      rw [hop] at hread
      dsimp only at hread
      split_ifs at hread with hsmall hcount
      · cases hread
        exact ⟨[], op, fun ops hops => .cons hop hops, nofun, nofun, hsmall, hcount, by simp⟩
      · cases hread
      cases haddress : vectorToAddress env op.data with
      | none => rw [haddress] at hread; cases hread
      | key id =>
        rw [haddress] at hread
        have hsome : vectorToAddress env op.data ≠ .none := by rw [haddress]; nofun
        obtain ⟨keys, count, hops, hpush, hkeys, hcount, hlength, rfl⟩ := ih hread
        refine ⟨op :: keys, count, fun ops hrest => .cons hop (hops ops hrest),
          List.forall_mem_cons.mpr ⟨opcode_le_of_data hop (ne_nil_of_vectorToAddress hsome), hpush⟩,
          List.forall_mem_cons.mpr ⟨hsome, hkeys⟩, hcount, hlength, ?_⟩
        rw [List.map_cons, haddress, List.append_assoc]
        rfl
      | script id => exact absurd haddress vectorToAddress_ne_script

theorem hashed_ops {hash rest : Bytes} {toDestination : Hash160 → Destination}
    {type type' : TxnOutType} {checks : List Byte}
    (hhashed : (match getOp hash with
      | none => (.nonstandard, [], none)
      | some pushed =>
        if pushed.data.length ≠ 20 then (.nonstandard, [], none)
        else
          match expectOps checks pushed.rest with
          | none => (.nonstandard, [toDestination (addressOf pushed.data)], none)
          | some rest => (type', [toDestination (addressOf pushed.data)], some rest))
      = (type, addresses, some rest)) :
    ∃ push, getOp hash = some push ∧ push.opcode ≤ OP_PUSHDATA4 ∧ push.data.length = 20
      ∧ expectOps checks push.rest = some rest ∧ type' = type
      ∧ [toDestination (addressOf push.data)] = addresses := by
  cases hop : getOp hash with
  | none => rw [hop] at hhashed; cases hhashed
  | some push =>
    rw [hop] at hhashed
    dsimp only at hhashed
    split at hhashed
    · cases hhashed
    next hdata =>
      have hlength := not_not.mp hdata
      have hne : push.data ≠ [] := by
        intro hnil
        rw [hnil] at hlength
        cases hlength
      cases hchecks : expectOps checks push.rest with
      | none => rw [hchecks] at hhashed; cases hhashed
      | some left =>
        rw [hchecks] at hhashed
        cases hhashed
        exact ⟨push, rfl, opcode_le_of_data hop hne, hlength, hchecks, rfl, rfl⟩

/-- The keys of a bare multisignature behind the number of signatures that it needs. -/
theorem multisig_ops {required : ScriptOp} {fuel : ℕ} {type : TxnOutType} {drops : List ScriptOp}
    (hrequired : getOp script = some required)
    (hsmall : OP_1 ≤ required.opcode ∧ required.opcode ≤ OP_16)
    (hread : (match multisigKeys env fuel required.rest [] with
      | (addresses, none) => (.nonstandard, addresses, none)
      | (addresses, some rest) =>
        match expectOp OP_CHECKMULTISIG rest with
        | none => (.nonstandard, addresses, none)
        | some rest => (.multisig, addresses, some rest)) = (type, addresses, some rest))
    (hdropOps : HasOps rest drops) (hisDrops : IsDrops drops) :
    ∃ ops, HasOps script ops ∧ StandardOps env type addresses ops := by
  cases hkeys : multisigKeys env fuel required.rest [] with
  | mk read left =>
    rw [hkeys] at hread
    cases left with
    | none => cases hread
    | some left =>
      dsimp only at hread
      cases hexpect : expectOp OP_CHECKMULTISIG left with
      | none => rw [hexpect] at hread; cases hread
      | some last =>
        rw [hexpect] at hread
        cases hread
        obtain ⟨check, hcheckOp, hcheckCode, rfl⟩ := expectOp_eq_some hexpect
        obtain ⟨keys, count, hops, hpush, hvalid, hcount, hlength, rfl⟩ := multisigKeys_ops hkeys
        rw [List.nil_append, List.length_map] at hlength
        exact ⟨_, .cons hrequired (hops _ (.cons hcheckOp hdropOps)),
          .multisig hsmall hpush hvalid hcount hlength hcheckCode hisDrops⟩

def IsStandard (env : ScriptEnv) (script : Bytes) (type : TxnOutType)
    (addresses : List Destination) : Prop :=
  type ≠ .nonstandard ∧ ∃ rest, extractHead env script = (type, addresses, some rest)
    ∧ onlyDrops script.length rest = true

/-- What the fixed extraction recognises consists of the operations of its type. -/
theorem IsStandard.ops {script : Bytes} {type : TxnOutType}
    (hstandard : IsStandard env script type addresses) :
    ∃ ops, HasOps script ops ∧ StandardOps env type addresses ops := by
  obtain ⟨htype, rest, hhead, hdrops⟩ := hstandard
  obtain ⟨drops, hdropOps, hisDrops⟩ := onlyDrops_ops hdrops
  unfold extractHead at hhead
  cases hop : getOp script with
  | none =>
    rw [hop] at hhead
    cases hhead
    exact absurd rfl htype
  | some op =>
    rw [hop] at hhead
    dsimp only at hhead
    by_cases hdup : op.opcode = OP_DUP
    · rw [if_pos hdup] at hhead
      cases hexpect : expectOp OP_HASH160 op.rest with
      | none => rw [hexpect] at hhead; cases hhead
      | some hashRest =>
        obtain ⟨hash, hhashOp, hhashCode, rfl⟩ := expectOp_eq_some hexpect
        rw [hexpect] at hhead
        obtain ⟨push, hpushOp, hpush, hdata, hchecks, rfl, rfl⟩ := hashed_ops hhead
        obtain ⟨verify, hverifyOp, hverifyCode, hchecks⟩ := expectOps_cons_eq_some hchecks
        obtain ⟨check, hcheckOp, hcheckCode, hchecks⟩ := expectOps_cons_eq_some hchecks
        cases hchecks
        exact ⟨_, .cons hop (.cons hhashOp (.cons hpushOp (.cons hverifyOp
          (.cons hcheckOp hdropOps)))),
          .pubkeyHash hdup hhashCode hpush hdata hverifyCode hcheckCode hisDrops⟩
    rw [if_neg hdup] at hhead
    by_cases hhash : op.opcode = OP_HASH160
    · rw [if_pos hhash] at hhead
      obtain ⟨push, hpushOp, hpush, hdata, hchecks, rfl, rfl⟩ := hashed_ops hhead
      obtain ⟨equal, hequalOp, hequalCode, hchecks⟩ := expectOps_cons_eq_some hchecks
      cases hchecks
      exact ⟨_, .cons hop (.cons hpushOp (.cons hequalOp hdropOps)),
        .scriptHash hhash hpush hdata hequalCode hisDrops⟩
    rw [if_neg hhash] at hhead
    by_cases hnull : isStandardNullData script = true
    · rw [if_pos hnull] at hhead
      cases hhead
    rw [if_neg hnull] at hhead
    cases haddress : vectorToAddress env op.data with
    | none =>
      rw [haddress] at hhead
      by_cases hsmall : OP_1 ≤ op.opcode ∧ op.opcode ≤ OP_16
      · rw [if_pos hsmall] at hhead
        exact multisig_ops hop hsmall hhead hdropOps hisDrops
      rw [if_neg hsmall] at hhead
      cases hhead
    | key id =>
      rw [haddress] at hhead
      cases hexpect : expectOp OP_CHECKSIG op.rest with
      | none => rw [hexpect] at hhead; cases hhead
      | some left =>
        rw [hexpect] at hhead
        cases hhead
        obtain ⟨check, hcheckOp, hcheckCode, rfl⟩ := expectOp_eq_some hexpect
        have hsome : vectorToAddress env op.data ≠ .none := by rw [haddress]; nofun
        rw [← haddress]
        exact ⟨_, .cons hop (.cons hcheckOp hdropOps), .pubkey
          (opcode_le_of_data hop (ne_nil_of_vectorToAddress hsome)) hsome hcheckCode hisDrops⟩
    | script id => exact absurd haddress vectorToAddress_ne_script

/-- `ExtractDestinations` of the protocols from 10009 on finds just that. -/
theorem extractDestinations_isStandard {params : ChainParams} {script : Bytes}
    {found : Destinations} (hfixed : params.fixedDestinationExtraction = true)
    (hfound : extractDestinations env params script = found) (hok : found.ok = true)
    (htype : found.type ≠ .nonstandard) : IsStandard env script found.type found.addresses := by
  unfold extractDestinations at hfound
  rw [if_neg (not_not.mpr hfixed)] at hfound
  cases hhead : extractHead env script with
  | mk type found' =>
    obtain ⟨addresses, rest⟩ := found'
    rw [hhead] at hfound
    cases rest with
    | none =>
      subst hfound
      cases hok
    | some rest =>
      dsimp only at hfound
      split_ifs at hfound with hdrops
      · subst hfound
        exact ⟨htype, rest, hhead, hdrops⟩
      subst hfound
      cases hok

theorem extractHead_nonstandard
    (hhead : extractHead env script = (.nonstandard, addresses, some rest)) : addresses = [] := by
  unfold extractHead at hhead
  split at hhead
  · cases hhead
    rfl
  dsimp only at hhead
  repeat' split at hhead
  all_goals cases hhead

theorem isStandard_of_address {params : ChainParams} {script : Bytes}
    (hfixed : params.fixedDestinationExtraction = true)
    (hok : (extractDestinations env params script).ok = true)
    (haddress : (extractDestinations env params script).addresses ≠ []) :
    IsStandard env script (extractDestinations env params script).type
      (extractDestinations env params script).addresses := by
  refine extractDestinations_isStandard hfixed rfl hok fun htype => ?_
  unfold extractDestinations at hok haddress htype
  rw [if_neg (not_not.mpr hfixed)] at hok haddress htype
  cases hhead : extractHead env script with
  | mk type found =>
    obtain ⟨addresses, rest⟩ := found
    rw [hhead] at hok haddress htype
    cases rest with
    | none => cases hok
    | some rest =>
      dsimp only at hok haddress htype
      split_ifs at hok haddress htype with hdrops
      subst htype
      exact haddress (extractHead_nonstandard hhead)

end Amberchain.Script
