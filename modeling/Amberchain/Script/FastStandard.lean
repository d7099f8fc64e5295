import Amberchain.Script.Solver
import Amberchain.Script.StandardOutputs

/-!
# The fast check against the templates

A script and a template with dropped elements behind it are compared in two steps: the template,
then the elements.  The fast check does the same for the two hash scripts, and where it differs
from the templates is a matter of the first operation.
-/

namespace Amberchain.Script

variable {env : StandardEnv}

/-! ## Templates and dropped elements -/

def dropElements (env : StandardEnv) : ℕ → Bytes → Option Bytes
  | 0, script => some script
  | count + 1, script =>
    match getOp script with
    | none => none
    | some op =>
      if env.verifySizeOfOpDropElements ∧ env.maxScriptElementSize < op.data.length then none
      else (expectOp OP_DROP op.rest).bind (dropElements env count)

/-- An opcode that no template reads in its own way. -/
structure IsPlain (opcode : Byte) : Prop where
  opcode_gt : OP_PUSHDATA4 < opcode
  not_special : opcode ∉ [OP_PUBKEY, OP_PUBKEYHASH, OP_SMALLINTEGER, OP_SMALLDATA, OP_DROPDATA,
    OP_PUBKEYS]

theorem matchOp_plain {op : ScriptOp} {opcode : Byte} (hplain : IsPlain opcode) :
    matchOp env op opcode = if op.opcode = opcode ∧ op.data = [] then some [] else none := by
  obtain ⟨-, hspecial⟩ := hplain
  simp only [List.mem_cons, List.not_mem_nil, or_false, not_or] at hspecial
  obtain ⟨hkey, hhash, hinteger, hdata, hdrop, -⟩ := hspecial
  rw [matchOp, if_neg hkey, if_neg hhash, if_neg hinteger, if_neg hdata, if_neg hdrop]

/-- A plain opcode of a template is an expected operation. -/
theorem matchOps_plain {opcode : Byte} (hplain : IsPlain opcode) (template : List Byte)
    (script : Bytes) (solutions : List Bytes) : matchOps env (opcode :: template) script solutions
      = (expectOp opcode script).bind fun rest => matchOps env template rest solutions := by
  have hkeys : opcode ≠ OP_PUBKEYS := by
    intro heq
    exact hplain.not_special (by rw [heq]; decide)
  rw [matchOps, expectOp]
  cases hop : getOp script with
  | none => rfl
  | some op =>
    dsimp only
    rw [if_neg hkeys, matchOp_plain hplain]
    by_cases hopcode : op.opcode = opcode
    · have hdata : op.data = [] := getOp_data_of_lt hop (hopcode ▸ hplain.opcode_gt)
      rw [if_pos ⟨hopcode, hdata⟩, if_pos hopcode]
      simp only [List.append_nil, Option.bind_some]
    rw [if_neg (fun hfits => hopcode hfits.1), if_neg hopcode]
    rfl

theorem isPlain_drop : IsPlain OP_DROP :=
  ⟨by decide, by decide⟩

theorem isPlain_return : IsPlain OP_RETURN :=
  ⟨by decide, by decide⟩

theorem matchOps_dropOpcodes (count : ℕ) (template : List Byte) (script : Bytes)
    (solutions : List Bytes) : matchOps env (dropOpcodes count ++ template) script solutions
      = (dropElements env count script).bind fun rest => matchOps env template rest solutions := by
  induction count generalizing script with
  | zero => rfl
  | succ count ih =>
    rw [dropOpcodes, List.cons_append, List.cons_append, matchOps, dropElements]
    cases getOp script with
    | none => rfl
    | some op =>
      dsimp only
      rw [if_neg (by decide : ¬OP_DROPDATA = OP_PUBKEYS), matchOp, if_neg (by decide),
        if_neg (by decide), if_neg (by decide), if_neg (by decide), if_pos rfl]
      by_cases hlarge : env.verifySizeOfOpDropElements ∧ env.maxScriptElementSize < op.data.length
      · rw [if_pos hlarge, if_pos hlarge]
        rfl
      rw [if_neg hlarge, if_neg hlarge]
      dsimp only
      rw [List.append_nil, matchOps_plain isPlain_drop]
      cases expectOp OP_DROP op.rest with
      | none => rfl
      | some rest => exact ih rest

theorem getLast?_tail_ne {opcode last : Byte} {template : List Byte}
    (hend : (opcode :: template).getLast? ≠ some last) : template.getLast? ≠ some last := by
  intro htail
  exact hend (by rw [List.getLast?_cons, htail]; rfl)

/-- A template that does not end with its keys, and what comes behind it. -/
theorem matchOps_append {template : List Byte} (hend : template.getLast? ≠ some OP_PUBKEYS)
    (more : List Byte) (script : Bytes) (solutions : List Bytes) :
    matchOps env (template ++ more) script solutions
      = (matchOps env template script solutions).bind fun (rest, solutions) =>
        matchOps env more rest solutions := by
  induction template, script, solutions using matchOps.induct env with
  | case1 script solutions => rfl
  | case2 opcode template script solutions hop =>
    rw [List.cons_append, matchOps, matchOps, hop]
    rfl
  | case3 script solutions op hop =>
    exact absurd rfl hend
  | case4 script solutions op hop found keys hkeys next template hmatch =>
    rw [List.cons_append, List.cons_append, matchOps, matchOps, hop]
    dsimp only
    rw [hkeys]
    rw [hmatch]
    rfl
  | case5 script solutions op hop found keys hkeys next template pushed hmatch ih =>
    rw [List.cons_append, List.cons_append, matchOps, matchOps, hop]
    dsimp only
    rw [hkeys]
    rw [hmatch]
    exact ih (getLast?_tail_ne (getLast?_tail_ne hend))
  | case6 opcode template script solutions op hop hkeys hmatch =>
    rw [List.cons_append, matchOps, matchOps, hop]
    dsimp only
    rw [if_neg hkeys, if_neg hkeys, hmatch]
    rfl
  | case7 opcode template script solutions op hop hkeys found hmatch ih =>
    rw [List.cons_append, matchOps, matchOps, hop]
    dsimp only
    rw [if_neg hkeys, if_neg hkeys, hmatch]
    exact ih (getLast?_tail_ne hend)

/-- The elements behind a destination are so many at most. -/
theorem onlyStandardDrops_iff (max : ℕ) (script : Bytes) :
    onlyStandardDrops env max script = true ↔ ∃ count ≤ max, dropElements env count script = some []
    := by
  induction max generalizing script with
  | zero =>
    constructor
    · intro hdrops
      exact ⟨0, le_rfl, congrArg some (of_decide_eq_true hdrops)⟩
    rintro ⟨count, hcount, hdrops⟩
    obtain rfl := Nat.le_zero.mp hcount
    exact decide_eq_true (Option.some.inj hdrops)
  | succ max ih =>
    rw [onlyStandardDrops]
    by_cases hnil : script = []
    · rw [hnil]
      exact ⟨fun _ => ⟨0, Nat.zero_le _, rfl⟩, fun _ => rfl⟩
    have hstep : (∃ count ≤ max + 1, dropElements env count script = some [])
        ↔ ∃ count ≤ max, dropElements env (count + 1) script = some [] := by
      constructor
      · rintro ⟨count, hcount, hdrops⟩
        cases count with
        | zero => exact absurd (Option.some.inj hdrops) hnil
        | succ count => exact ⟨count, Nat.le_of_succ_le_succ hcount, hdrops⟩
      rintro ⟨count, hcount, hdrops⟩
      exact ⟨count + 1, Nat.succ_le_succ hcount, hdrops⟩
    rw [if_neg hnil, hstep]
    simp only [dropElements]
    cases getOp script with
    | none => simp
    | some op =>
      dsimp only
      split
      · simp
      cases expectOp OP_DROP op.rest with
      | none => simp
      | some rest => exact ih rest

/-- A template with elements behind it: the template, then the elements. -/
theorem matchWithDrops_eq {template : List Byte} (hend : template.getLast? ≠ some OP_PUBKEYS)
    (script : Bytes) : matchWithDrops env template script
      = (matchOps env template script []).bind fun (rest, solutions) =>
        if onlyStandardDrops env env.stdOpDropCount rest then some solutions else none := by
  have htemplate (drops : ℕ) : matchTemplate env (template ++ dropOpcodes drops) script
      = (matchOps env template script []).bind fun (rest, solutions) =>
        if dropElements env drops rest = some [] then some solutions else none := by
    have hdrops (rest : Bytes) (solutions : List Bytes) :
        matchOps env (dropOpcodes drops) rest solutions
          = (dropElements env drops rest).bind fun rest => matchOps env [] rest solutions := by
      rw [← List.append_nil (dropOpcodes drops)]
      exact matchOps_dropOpcodes drops [] rest solutions
    rw [matchTemplate, matchOps_append hend]
    cases matchOps env template script [] with
    | none => rfl
    | some found =>
      obtain ⟨rest, solutions⟩ := found
      rw [Option.bind_some, Option.bind_some]
      dsimp only
      rw [hdrops]
      cases dropElements env drops rest with
      | none => rfl
      | some left =>
        cases left with
        | nil => rfl
        | cons byte left => rfl
  rw [matchWithDrops]
  simp only [htemplate]
  cases matchOps env template script [] with
  | none =>
    rw [Option.bind_none, List.findSome?_eq_none_iff]
    intro drops _
    rfl
  | some found =>
    obtain ⟨rest, solutions⟩ := found
    simp only [Option.bind_some]
    by_cases honly : onlyStandardDrops env env.stdOpDropCount rest = true
    · rw [if_pos honly]
      obtain ⟨count, hcount, hdrops⟩ := (onlyStandardDrops_iff _ _).mp honly
      have hsome : ((List.range (env.stdOpDropCount + 1)).findSome? fun drops =>
          if dropElements env drops rest = some [] then some solutions else none).isSome := by
        refine List.findSome?_isSome_iff.mpr ⟨count, ?_, ?_⟩
        · exact List.mem_range.mpr (Nat.lt_succ_of_le hcount)
        rw [if_pos hdrops]
        rfl
      obtain ⟨found, hfound⟩ := Option.isSome_iff_exists.mp hsome
      obtain ⟨drops, -, hvalue⟩ := List.exists_of_findSome?_eq_some hfound
      split at hvalue
      · rw [hfound, hvalue]
      · cases hvalue
    rw [if_neg honly, List.findSome?_eq_none_iff]
    intro drops hmem
    refine if_neg fun hdrops => honly ((onlyStandardDrops_iff _ _).mpr ?_)
    exact ⟨drops, Nat.le_of_lt_succ (List.mem_range.mp hmem), hdrops⟩

/-! ## Data scripts -/

/-- A data script behind `OP_RETURN`: nothing or one operation, and dropped elements. -/
def IsDataTail (env : StandardEnv) (withData : Prop) (behind : Bytes) : Prop :=
  onlyStandardDrops env env.stdOpDropCount behind = true
    ∨ withData ∧ ∃ op, getOp behind = some op ∧ op.data.length ≤ env.maxOpReturnRelay
      ∧ onlyStandardDrops env env.stdOpDropCount op.rest = true

/-- A script with a data template: up to two dropped elements with the stream templates,
`OP_RETURN`, and what may stand behind it. -/
def IsDataScript (env : StandardEnv) (script : Bytes) : Prop :=
  ∃ elements ≤ 2, (0 < elements → env.streamTemplates = true)
    ∧ ∃ rest behind, dropElements env elements script = some rest
      ∧ expectOp OP_RETURN rest = some behind
      ∧ IsDataTail env (env.datacarrier = true ∨ 0 < elements) behind

theorem mem_nullDataTemplates {template : List Byte} : template ∈ nullDataTemplates env
      ↔ ∃ elements ≤ 2, (0 < elements → env.streamTemplates = true)
        ∧ (template = dropOpcodes elements ++ [OP_RETURN] ∨ (env.datacarrier = true ∨ 0 < elements)
            ∧ template = dropOpcodes elements ++ [OP_RETURN, OP_SMALLDATA]) := by
  have hcases {p : ℕ → Prop} : (∃ elements ≤ 2, p elements) ↔ p 0 ∨ p 1 ∨ p 2 := by
    constructor
    · rintro ⟨elements, hle, hp⟩
      obtain rfl | rfl | rfl : elements = 0 ∨ elements = 1 ∨ elements = 2 := by omega
      · exact .inl hp
      · exact .inr (.inl hp)
      · exact .inr (.inr hp)
    rintro (hp | hp | hp)
    · exact ⟨0, by omega, hp⟩
    · exact ⟨1, by omega, hp⟩
    · exact ⟨2, by omega, hp⟩
  rw [hcases, nullDataTemplates]
  cases env.datacarrier <;> cases env.streamTemplates
  all_goals
    simp [dropOpcodes]
  all_goals
    tauto

theorem matchWithDrops_return (elements : ℕ) (script : Bytes) :
    (matchWithDrops env (dropOpcodes elements ++ [OP_RETURN]) script).isSome = true
      ↔ ∃ rest behind, dropElements env elements script = some rest
        ∧ expectOp OP_RETURN rest = some behind
        ∧ onlyStandardDrops env env.stdOpDropCount behind = true := by
  rw [matchWithDrops_eq (by simp; decide), matchOps_dropOpcodes]
  cases dropElements env elements script with
  | none => simp
  | some rest =>
    rw [Option.bind_some, matchOps_plain isPlain_return]
    cases hreturn : expectOp OP_RETURN rest with
    | none => simp [hreturn]
    | some behind =>
      rw [Option.bind_some, matchOps, Option.bind_some]
      dsimp only
      split
      next honly => simp [hreturn, honly]
      next honly => simp [hreturn, honly]

theorem matchWithDrops_data (elements : ℕ) (script : Bytes) :
    (matchWithDrops env (dropOpcodes elements ++ [OP_RETURN, OP_SMALLDATA]) script).isSome = true
      ↔ ∃ rest behind, dropElements env elements script = some rest
        ∧ expectOp OP_RETURN rest = some behind
        ∧ ∃ op, getOp behind = some op ∧ op.data.length ≤ env.maxOpReturnRelay
          ∧ onlyStandardDrops env env.stdOpDropCount op.rest = true := by
  rw [matchWithDrops_eq (by simp; decide), matchOps_dropOpcodes]
  cases dropElements env elements script with
  | none => simp
  | some rest =>
    rw [Option.bind_some, matchOps_plain isPlain_return]
    cases hreturn : expectOp OP_RETURN rest with
    | none => simp [hreturn]
    | some behind =>
      rw [Option.bind_some, matchOps]
      cases hop : getOp behind with
      | none => simp [hreturn, hop]
      | some op =>
        dsimp only
        rw [if_neg (by decide), matchOp, if_neg (by decide), if_neg (by decide),
          if_neg (by decide), if_pos rfl]
        by_cases hsmall : op.data.length ≤ env.maxOpReturnRelay
        · rw [if_pos hsmall]
          dsimp only
          rw [matchOps, Option.bind_some]
          split
          next honly => simp [hreturn, hop, hsmall, honly]
          next honly => simp [hreturn, hop, hsmall, honly]
        simp [hreturn, hop, hsmall]

theorem isDataScript_iff {script : Bytes} :
    (∃ template ∈ nullDataTemplates env, (matchWithDrops env template script).isSome = true)
      ↔ IsDataScript env script := by
  constructor
  · rintro ⟨template, hmem, hmatch⟩
    obtain ⟨elements, hle, hstreams, rfl | ⟨hdata, rfl⟩⟩ := mem_nullDataTemplates.mp hmem
    · obtain ⟨rest, behind, helements, hreturn, honly⟩ := (matchWithDrops_return _ _).mp hmatch
      exact ⟨elements, hle, hstreams, rest, behind, helements, hreturn, .inl honly⟩
    obtain ⟨rest, behind, helements, hreturn, hop⟩ := (matchWithDrops_data _ _).mp hmatch
    exact ⟨elements, hle, hstreams, rest, behind, helements, hreturn, .inr ⟨hdata, hop⟩⟩
  rintro ⟨elements, hle, hstreams, rest, behind, helements, hreturn, honly | ⟨hdata, hop⟩⟩
  · refine ⟨_, mem_nullDataTemplates.mpr ⟨elements, hle, hstreams, .inl rfl⟩, ?_⟩
    exact (matchWithDrops_return _ _).mpr ⟨rest, behind, helements, hreturn, honly⟩
  refine ⟨_, mem_nullDataTemplates.mpr ⟨elements, hle, hstreams, .inr ⟨hdata, rfl⟩⟩, ?_⟩
  exact (matchWithDrops_data _ _).mpr ⟨rest, behind, helements, hreturn, hop⟩

/-! ## The first operation of a template -/

section Head

variable {script : Bytes} {op : ScriptOp} {opcode : Byte} {template : List Byte}

theorem matchWithDrops_unreadable (hend : (opcode :: template).getLast? ≠ some OP_PUBKEYS)
    (hop : getOp script = none) : matchWithDrops env (opcode :: template) script = none := by
  rw [matchWithDrops_eq hend, matchOps, hop]
  rfl

theorem matchWithDrops_head (hend : (opcode :: template).getLast? ≠ some OP_PUBKEYS)
    (hkeys : opcode ≠ OP_PUBKEYS) (hop : getOp script = some op)
    (hmatch : matchOp env op opcode = none) :
    matchWithDrops env (opcode :: template) script = none := by
  rw [matchWithDrops_eq hend, matchOps, hop]
  dsimp only
  rw [if_neg hkeys, hmatch]
  rfl

theorem matchOp_pubKey (hdata : op.data = []) : matchOp env op OP_PUBKEY = none := by
  rw [matchOp, hdata]
  rfl

theorem matchOp_smallInteger (hlarge : OP_16 < op.opcode) :
    matchOp env op OP_SMALLINTEGER = none := by
  rw [matchOp, if_neg (by decide), if_neg (by decide), if_pos rfl, if_neg]
  rintro (hzero | ⟨-, hsmall⟩)
  · rw [hzero] at hlarge
    exact absurd hlarge (by decide)
  exact absurd hlarge (BitVec.not_lt.mpr hsmall)

theorem takePubKeys_of_nil (hdata : op.data = []) (fuel : ℕ) (keys : List Bytes) :
    takePubKeys fuel op keys = (op, keys) := by
  cases fuel with
  | zero => rfl
  | succ fuel =>
    rw [takePubKeys, hdata]
    rfl

theorem matchOp_other (hplain : IsPlain opcode) (hne : op.opcode ≠ opcode) :
    matchOp env op opcode = none := by
  rw [matchOp_plain hplain, if_neg fun hfits => hne hfits.1]

end Head

/-! ## Hash scripts -/

theorem isPlain_dup : IsPlain OP_DUP :=
  ⟨by decide, by decide⟩

theorem isPlain_hash160 : IsPlain OP_HASH160 :=
  ⟨by decide, by decide⟩

theorem matchOps_checks {checks : List Byte} (hplain : ∀ opcode ∈ checks, IsPlain opcode)
    (script : Bytes) (solutions : List Bytes) : matchOps env checks script solutions
      = (expectOps checks script).map fun rest => (rest, solutions) := by
  induction checks generalizing script with
  | nil => rfl
  | cons opcode checks ih =>
    rw [matchOps_plain (hplain opcode (.head _)), expectOps, List.foldlM_cons]
    cases expectOp opcode script with
    | none => rfl
    | some rest =>
      exact ih (fun other hmem => hplain other (.tail _ hmem)) rest

theorem matchOps_hash {checks : List Byte} (hplain : ∀ opcode ∈ checks, IsPlain opcode)
    (script : Bytes) (solutions : List Bytes) :
    (matchOps env (OP_PUBKEYHASH :: checks) script solutions).map Prod.fst
      = checkedHash checks script := by
  rw [matchOps, checkedHash]
  cases getOp script with
  | none => rfl
  | some pushed =>
    dsimp only
    rw [if_neg (by decide), matchOp, if_neg (by decide), if_pos rfl]
    by_cases hlength : pushed.data.length = 20
    · rw [if_pos hlength, if_neg (not_not.mpr hlength)]
      dsimp only
      rw [matchOps_checks hplain, Option.map_map]
      exact Option.map_id'
    rw [if_neg hlength, if_pos hlength]
    rfl

theorem matchWithDrops_isSome {template : List Byte}
    (hend : template.getLast? ≠ some OP_PUBKEYS) (script : Bytes) :
    (matchWithDrops env template script).isSome
      = ((matchOps env template script []).map Prod.fst).any
        (onlyStandardDrops env env.stdOpDropCount) := by
  rw [matchWithDrops_eq hend]
  cases matchOps env template script [] with
  | none => rfl
  | some found =>
    obtain ⟨rest, -⟩ := found
    rw [Option.bind_some, Option.map_some, Option.any_some]
    dsimp only
    cases onlyStandardDrops env env.stdOpDropCount rest <;> rfl

theorem bind_withStandardDrops (type : TxnOutType) (checked : Option Bytes) :
    checked.bind (withStandardDrops env type)
      = if checked.any (onlyStandardDrops env env.stdOpDropCount) then some type else none := by
  cases checked with
  | none => rfl
  | some rest => rfl

section Answers

variable {script : Bytes} {op : ScriptOp}

abbrev pubkeyHashTemplate : List Byte :=
  [OP_DUP, OP_HASH160, OP_PUBKEYHASH, OP_EQUALVERIFY, OP_CHECKSIG]

abbrev scriptHashTemplate : List Byte :=
  [OP_HASH160, OP_PUBKEYHASH, OP_EQUAL]

theorem isStandard_dup (hop : getOp script = some op) (hdup : op.opcode = OP_DUP) :
    isStandard env script
      = if (matchWithDrops env pubkeyHashTemplate script).isSome then some .pubkeyHash
        else none := by
  have hexpect : expectOp OP_DUP script = some op.rest := by
    rw [expectOp, hop]
    exact if_pos hdup
  rw [isStandard, hop]
  dsimp only
  rw [if_pos hdup, matchWithDrops_isSome (by decide), matchOps_plain isPlain_dup, hexpect,
    Option.bind_some, matchOps_plain isPlain_hash160]
  cases expectOp OP_HASH160 op.rest with
  | none => rfl
  | some hash =>
    rw [Option.bind_some, matchOps_hash (by
      intro opcode hmem
      obtain rfl | hmem := List.mem_cons.mp hmem
      · exact ⟨by decide, by decide⟩
      obtain rfl := List.mem_singleton.mp hmem
      exact ⟨by decide, by decide⟩)]
    exact bind_withStandardDrops _ _

theorem isStandard_hash160 (hop : getOp script = some op) (hhash : op.opcode = OP_HASH160) :
    isStandard env script
      = if (matchWithDrops env scriptHashTemplate script).isSome then some .scriptHash
        else none := by
  have hexpect : expectOp OP_HASH160 script = some op.rest := by
    rw [expectOp, hop]
    exact if_pos hhash
  rw [isStandard, hop]
  dsimp only
  rw [if_neg (by rw [hhash]; decide), if_pos hhash, matchWithDrops_isSome (by decide),
    matchOps_plain isPlain_hash160, hexpect, Option.bind_some, matchOps_hash (by
      intro opcode hmem
      obtain rfl := List.mem_singleton.mp hmem
      exact ⟨by decide, by decide⟩)]
  exact bind_withStandardDrops _ _

/-! ## The full check -/

def findNullData (env : StandardEnv) (script : Bytes) : Option (TxnOutType × List Bytes) :=
  (nullDataTemplates env).findSome? fun template =>
    (matchWithDrops env template script).map fun solutions => (.nullData, solutions)

theorem findTemplate_eq (env : StandardEnv) (script : Bytes) : findTemplate env script
      = ((matchWithDrops env [OP_PUBKEY, OP_CHECKSIG] script).map (TxnOutType.pubkey, ·)).or
        (((matchWithDrops env pubkeyHashTemplate script).map (TxnOutType.pubkeyHash, ·)).or
          (((matchWithDrops env scriptHashTemplate script).map (TxnOutType.scriptHash, ·)).or
            (((matchWithDrops env [OP_SMALLINTEGER, OP_PUBKEYS, OP_SMALLINTEGER,
              OP_CHECKMULTISIG] script).map (TxnOutType.multisig, ·)).or
              (findNullData env script)))) := by
  have hcons {α β : Type} (f : α → Option β) (first : α) (rest : List α) :
      (first :: rest).findSome? f = (f first).or (rest.findSome? f) := by
    rw [List.findSome?_cons]
    cases f first <;> rfl
  rw [findTemplate, templates, List.findSome?_append]
  simp only [hcons, List.findSome?_nil, List.findSome?_map, Option.or_none, Option.or_assoc]
  rfl

theorem findNullData_eq_none_iff : findNullData env script = none ↔ ¬IsDataScript env script := by
  rw [findNullData, List.findSome?_eq_none_iff, ← isDataScript_iff]
  constructor
  · rintro hnone ⟨template, hmem, hsome⟩
    rw [Option.map_eq_none_iff.mp (hnone template hmem)] at hsome
    cases hsome
  intro hnone template hmem
  cases hmatch : matchWithDrops env template script with
  | none => rfl
  | some solutions => exact absurd ⟨template, hmem, by rw [hmatch]; rfl⟩ hnone

theorem findNullData_type {found : TxnOutType × List Bytes}
    (hfound : findNullData env script = some found) : found.1 = .nullData := by
  obtain ⟨template, -, hmatch⟩ := List.exists_of_findSome?_eq_some hfound
  obtain ⟨-, -, rfl⟩ := Option.map_eq_some_iff.mp hmatch
  rfl

theorem isStandardFull_of_find {type : TxnOutType} {solutions : List Bytes}
    (hfind : findTemplate env script = some (type, solutions)) (hmultisig : type ≠ .multisig)
    (htype : type ≠ .nonstandard) : isStandardFull env script = some type := by
  have hsolver : solver env script = ⟨true, type, solutions⟩ := by
    rw [solver, hfind]
    dsimp only
    rw [decide_eq_true hmultisig, Bool.true_or]
  rw [isStandardFull, hsolver]
  dsimp only
  rw [if_neg (by decide), if_neg hmultisig, if_pos htype]

theorem isStandardFull_of_none (hfind : findTemplate env script = none) :
    isStandardFull env script = none := by
  rw [isStandardFull, solver, hfind]
  rfl

theorem isStandardFull_of_findNullData (hfind : findTemplate env script = findNullData env script) :
    (IsDataScript env script → isStandardFull env script = some .nullData)
      ∧ (¬IsDataScript env script → isStandardFull env script = none) := by
  constructor
  · intro hdata
    cases hfound : findNullData env script with
    | none => exact absurd hdata (findNullData_eq_none_iff.mp hfound)
    | some found =>
      have htype := findNullData_type hfound
      obtain ⟨type, solutions⟩ := found
      rw [hfound] at hfind
      subst htype
      exact isStandardFull_of_find hfind (by decide) (by decide)
  intro hdata
  exact isStandardFull_of_none (hfind.trans (findNullData_eq_none_iff.mpr hdata))

/-! ## Where both agree -/

abbrev multisigTemplate : List Byte :=
  [OP_SMALLINTEGER, OP_PUBKEYS, OP_SMALLINTEGER, OP_CHECKMULTISIG]

theorem no_key_template (hop : getOp script = some op)
    (hhead : op.opcode = OP_DUP ∨ op.opcode = OP_HASH160) :
    matchWithDrops env [OP_PUBKEY, OP_CHECKSIG] script = none
      ∧ matchWithDrops env multisigTemplate script = none := by
  have hlarge : OP_16 < op.opcode ∧ OP_PUSHDATA4 < op.opcode := by
    obtain hdup | hhash := hhead
    · rw [hdup]
      decide
    rw [hhash]
    decide
  exact ⟨matchWithDrops_head (by decide) (by decide) hop
      (matchOp_pubKey (getOp_data_of_lt hop hlarge.2)),
    matchWithDrops_head (by decide) (by decide) hop (matchOp_smallInteger hlarge.1)⟩

/-- A data script drops its first operation, or it starts with `OP_RETURN`. -/
theorem IsDataScript.second (hdata : IsDataScript env script) (hop : getOp script = some op)
    (hreturn : op.opcode ≠ OP_RETURN) : ∃ rest, expectOp OP_DROP op.rest = some rest := by
  obtain ⟨elements, -, -, rest, behind, helements, hexpect, -⟩ := hdata
  cases elements with
  | zero =>
    cases helements
    rw [expectOp, hop] at hexpect
    dsimp only at hexpect
    rw [if_neg hreturn] at hexpect
    cases hexpect
  | succ elements =>
    rw [dropElements, hop] at helements
    dsimp only at helements
    split at helements
    · cases helements
    cases hdrop : expectOp OP_DROP op.rest with
    | none =>
      rw [hdrop] at helements
      cases helements
    | some rest => exact ⟨rest, rfl⟩

theorem expectOp_unique {opcode other : Byte} {rest left : Bytes}
    (hexpect : expectOp opcode script = some rest) (hother : expectOp other script = some left) :
    opcode = other := by
  obtain ⟨op, hop, rfl, -⟩ := expectOp_eq_some hexpect
  obtain ⟨op', hop', rfl, -⟩ := expectOp_eq_some hother
  rw [hop] at hop'
  cases hop'
  rfl

/-- The answers for a hash script, by its own template and those of data. -/
theorem agree_of_hash {type : TxnOutType} {template : List Byte} (hfast : isStandard env script
      = if (matchWithDrops env template script).isSome then some type else none)
    (hfind : findTemplate env script
      = ((matchWithDrops env template script).map (type, ·)).or (findNullData env script))
    (hmultisig : type ≠ .multisig) (htype : type ≠ .nonstandard)
    (hexclusive : (matchWithDrops env template script).isSome = true → ¬IsDataScript env script) :
    isStandard env script = isStandardFull env script ↔ ¬IsDataScript env script := by
  cases hmatch : matchWithDrops env template script with
  | none =>
    rw [hmatch] at hfast hfind
    rw [hfast]
    obtain ⟨hyes, hno⟩ := isStandardFull_of_findNullData hfind
    constructor
    · intro heq hdata
      rw [hyes hdata] at heq
      cases heq
    intro hdata
    exact (hno hdata).symm
  | some solutions =>
    rw [hmatch] at hfast hfind
    have hfull := isStandardFull_of_find hfind hmultisig htype
    exact ⟨fun _ => hexclusive (by rw [hmatch]; rfl), fun _ => hfast.trans hfull.symm⟩

theorem agree_dup (hop : getOp script = some op) (hdup : op.opcode = OP_DUP) :
    isStandard env script = isStandardFull env script ↔ ¬IsDataScript env script := by
  obtain ⟨hkey, hmultisig⟩ : matchWithDrops env [OP_PUBKEY, OP_CHECKSIG] script = none
      ∧ matchWithDrops env multisigTemplate script = none := no_key_template hop (.inl hdup)
  have hscript : matchWithDrops env scriptHashTemplate script = none :=
    matchWithDrops_head (by decide) (by decide) hop
      (matchOp_other isPlain_hash160 (by rw [hdup]; decide))
  refine agree_of_hash (isStandard_dup hop hdup) ?_ (by decide) (by decide) ?_
  · rw [findTemplate_eq, hkey, hmultisig, hscript]
    rfl
  intro hmatch hdata
  obtain ⟨rest, hdrop⟩ := hdata.second hop (by rw [hdup]; decide)
  have hexpect : expectOp OP_DUP script = some op.rest := by
    rw [expectOp, hop]
    exact if_pos hdup
  rw [matchWithDrops_isSome (by decide), matchOps_plain isPlain_dup, hexpect, Option.bind_some,
    matchOps_plain isPlain_hash160] at hmatch
  cases hhash : expectOp OP_HASH160 op.rest with
  | none =>
    rw [hhash] at hmatch
    cases hmatch
  | some hash => exact absurd (expectOp_unique hhash hdrop) (by decide)

theorem agree_hash160 (hop : getOp script = some op) (hhash : op.opcode = OP_HASH160) :
    isStandard env script = isStandardFull env script ↔ ¬IsDataScript env script := by
  obtain ⟨hkey, hmultisig⟩ : matchWithDrops env [OP_PUBKEY, OP_CHECKSIG] script = none
      ∧ matchWithDrops env multisigTemplate script = none := no_key_template hop (.inr hhash)
  have hdup : matchWithDrops env pubkeyHashTemplate script = none :=
    matchWithDrops_head (by decide) (by decide) hop
      (matchOp_other isPlain_dup (by rw [hhash]; decide))
  refine agree_of_hash (isStandard_hash160 hop hhash) ?_ (by decide) (by decide) ?_
  · rw [findTemplate_eq, hkey, hmultisig, hdup]
    rfl
  intro hmatch hdata
  obtain ⟨rest, hdrop⟩ := hdata.second hop (by rw [hhash]; decide)
  obtain ⟨pushed, hpushed, hpushedCode, -⟩ := expectOp_eq_some hdrop
  have hexpect : expectOp OP_HASH160 script = some op.rest := by
    rw [expectOp, hop]
    exact if_pos hhash
  -- the operation behind OP_HASH160 is no OP_DROP, as it has data
  have hlength : pushed.data ≠ [] := by
    intro hnil
    rw [matchWithDrops_isSome (by decide), matchOps_plain isPlain_hash160, hexpect,
      Option.bind_some, matchOps, hpushed] at hmatch
    dsimp only at hmatch
    rw [if_neg (by decide), matchOp, hnil] at hmatch
    cases hmatch
  exact hlength (getOp_data_of_lt hpushed (by rw [hpushedCode]; decide))

/-- A script that the fast check takes for data starts with `OP_RETURN` or an element. -/
theorem nullData_head (hnull : isStandardNullDataFor env true script = true)
    (hop : getOp script = some op) :
    op.opcode = OP_RETURN ∨ ∃ rest, expectOp OP_DROP op.rest = some rest := by
  rw [isStandardNullDataFor, nullDataElements, hop] at hnull
  dsimp only at hnull
  by_cases hreturn : op.opcode = OP_RETURN
  · exact .inl hreturn
  rw [if_neg hreturn] at hnull
  by_cases hplain : OP_PUSHDATA4 < op.opcode ∧ env.fixedDestinationExtraction = true
  · rw [if_pos hplain] at hnull
    cases hnull
  rw [if_neg hplain] at hnull
  cases hdrop : expectOp OP_DROP op.rest with
  | none =>
    rw [hdrop] at hnull
    cases hnull
  | some rest => exact .inr ⟨rest, rfl⟩

theorem findTemplate_of_nullData (hop : getOp script = some op)
    (hnull : isStandardNullDataFor env true script = true) (hdup : op.opcode ≠ OP_DUP)
    (hhash : op.opcode ≠ OP_HASH160) : findTemplate env script = findNullData env script := by
  have hkey : matchWithDrops env [OP_PUBKEY, OP_CHECKSIG] script = none := by
    obtain hreturn | ⟨rest, hdrop⟩ := nullData_head hnull hop
    · exact matchWithDrops_head (by decide) (by decide) hop
        (matchOp_pubKey (getOp_data_of_lt hop (by rw [hreturn]; decide)))
    rw [matchWithDrops_eq (by decide), matchOps, hop]
    dsimp only
    cases matchOp env op OP_PUBKEY with
    | none => rfl
    | some found =>
      dsimp only
      rw [matchOps_plain ⟨by decide, by decide⟩]
      cases hcheck : expectOp OP_CHECKSIG op.rest with
      | none => rfl
      | some left => exact absurd (expectOp_unique hcheck hdrop) (by decide)
  have hmultisig : matchWithDrops env multisigTemplate script = none := by
    obtain hreturn | ⟨rest, hdrop⟩ := nullData_head hnull hop
    · exact matchWithDrops_head (by decide) (by decide) hop
        (matchOp_smallInteger (by rw [hreturn]; decide))
    obtain ⟨dropped, hdropped, hcode, -⟩ := expectOp_eq_some hdrop
    have hdata : dropped.data = [] := getOp_data_of_lt hdropped (by rw [hcode]; decide)
    rw [matchWithDrops_eq (by decide), matchOps, hop]
    dsimp only
    cases matchOp env op OP_SMALLINTEGER with
    | none => rfl
    | some found =>
      dsimp only
      rw [matchOps, hdropped]
      dsimp only
      rw [takePubKeys_of_nil hdata]
      rw [matchOp_smallInteger (by rw [hcode]; decide)]
      rfl
  have hkeyHash : matchWithDrops env pubkeyHashTemplate script = none :=
    matchWithDrops_head (by decide) (by decide) hop (matchOp_other isPlain_dup hdup)
  have hscriptHash : matchWithDrops env scriptHashTemplate script = none :=
    matchWithDrops_head (by decide) (by decide) hop (matchOp_other isPlain_hash160 hhash)
  rw [findTemplate_eq, hkey, hmultisig, hkeyHash, hscriptHash]
  rfl

/-- Without a first operation no template matches. -/
theorem findTemplate_unreadable (hop : getOp script = none) : findTemplate env script = none := by
  rw [findTemplate, List.findSome?_eq_none_iff]
  rintro ⟨type, template⟩ hmem
  have hend : template.getLast? ≠ some OP_PUBKEYS ∧ template ≠ [] := by
    rw [templates, List.mem_append] at hmem
    obtain hmem | hmem := hmem
    · simp only [List.mem_cons, List.not_mem_nil, or_false, Prod.mk.injEq] at hmem
      obtain ⟨-, rfl⟩ | ⟨-, rfl⟩ | ⟨-, rfl⟩ | ⟨-, rfl⟩ := hmem <;> decide
    obtain ⟨data, hdata, hpair⟩ := List.mem_map.mp hmem
    cases hpair
    obtain ⟨-, -, -, rfl | ⟨-, rfl⟩⟩ := mem_nullDataTemplates.mp hdata
    · exact ⟨by simp; decide, by simp⟩
    · exact ⟨by simp; decide, by simp⟩
  cases template with
  | nil => exact absurd rfl hend.2
  | cons opcode template =>
    dsimp only
    rw [matchWithDrops_unreadable hend.1 hop]
    rfl

end Answers

def FastAgrees (env : StandardEnv) (script : Bytes) : Prop :=
  match getOp script with
  | none => onlyStandardDrops env env.stdOpDropCount (skipOp script) = false
  | some op =>
    if op.opcode = OP_DUP ∨ op.opcode = OP_HASH160 then ¬IsDataScript env script
    else isStandardNullDataFor env true script = true → IsDataScript env script

/-- `IsStandard` and `IsStandardFull` agree on a script, with their types: on one without a first
operation when elements do not follow, on one that starts as a hash script when it is no data
script, and on the others when what is taken for data is a data script. -/
theorem isStandard_eq_isStandardFull_iff (env : StandardEnv) (script : Bytes) :
    isStandard env script = isStandardFull env script ↔ FastAgrees env script := by
  rw [FastAgrees]
  cases hop : getOp script with
  | none =>
    rw [isStandardFull_of_none (findTemplate_unreadable hop), isStandard, hop]
    rw [withStandardDrops]
    cases onlyStandardDrops env env.stdOpDropCount (skipOp script) with
    | false => exact ⟨fun _ => rfl, fun _ => rfl⟩
    | true => exact ⟨nofun, nofun⟩
  | some op =>
    dsimp only
    by_cases hdup : op.opcode = OP_DUP
    · rw [if_pos (.inl hdup)]
      exact agree_dup hop hdup
    by_cases hhash : op.opcode = OP_HASH160
    · rw [if_pos (.inr hhash)]
      exact agree_hash160 hop hhash
    rw [if_neg (not_or.mpr ⟨hdup, hhash⟩), isStandard, hop]
    dsimp only
    rw [if_neg hdup, if_neg hhash]
    by_cases hnull : isStandardNullDataFor env true script = true
    · obtain ⟨hyes, hno⟩ := isStandardFull_of_findNullData
        (findTemplate_of_nullData hop hnull hdup hhash)
      rw [if_pos hnull]
      constructor
      · intro heq _
        by_contra hdata
        rw [hno hdata] at heq
        cases heq
      intro hdata
      exact (hyes (hdata hnull)).symm
    rw [if_neg hnull]
    exact ⟨fun _ hyes => absurd hyes hnull, fun _ => rfl⟩

/-- The empty script passes the fast check, as a script of no type. -/
theorem isStandard_empty : isStandard StandardEnv.defaults [] = some .nonstandard
      ∧ isStandardFull StandardEnv.defaults [] = none := by
  decide

end Amberchain.Script
