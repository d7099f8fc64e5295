import Amberchain.Miner.BlockSignature

/-!
# Output scripts with several elements

The script of an address followed by elements, each pushed and dropped.  The two parsers of
such a script agree on where the elements begin: one finds exactly the address, the other
exactly the elements.
-/

namespace Amberchain.Script

open McScript
open Miner (pushData)

def getScriptForDestination : Destination → Bytes
  | .none => []
  | .key id => [OP_DUP, OP_HASH160] ++ pushData (putLE id.toNat 20) ++ [OP_EQUALVERIFY, OP_CHECKSIG]
  | .script id => [OP_HASH160] ++ pushData (putLE id.toNat 20) ++ [OP_EQUAL]

/-- `CScript() << element << OP_DROP` -/
def pushAndDrop (element : Bytes) : Bytes :=
  pushData element ++ [OP_DROP]

def multiElementScript (address : Destination) (elements : List Bytes) : Bytes :=
  getScriptForDestination address ++ elements.flatMap pushAndDrop

def typeOf : Destination → TxnOutType
  | .none => .nonstandard
  | .key _ => .pubkeyHash
  | .script _ => .scriptHash

theorem getOp_plain {opcode : Byte} (hplain : OP_PUSHDATA4 < opcode) (rest : Bytes) :
    getOp (opcode :: rest) = some ⟨opcode, [], rest⟩ := by
  have hsize : pushSize opcode rest = some (0, rest) := by
    have hsmall {other : Byte} (hother : other ≤ OP_PUSHDATA4) : ¬opcode = other := by
      intro heq
      exact BitVec.not_lt.mpr hother (heq ▸ hplain)
    have hone : ¬opcode < OP_PUSHDATA1 := by
      intro hlt
      have hless : opcode < OP_PUSHDATA4 := BitVec.lt_trans hlt (by decide)
      exact BitVec.not_lt.mpr (BitVec.le_of_lt hless) hplain
    rw [pushSize]
    rw [if_neg hone, if_neg (hsmall (by decide)), if_neg (hsmall (by decide)),
      if_neg (hsmall (by decide))]
  rw [getOp, hsize]
  rfl

theorem expectOp_plain {opcode : Byte} (hplain : OP_PUSHDATA4 < opcode) (rest : Bytes) :
    expectOp opcode (opcode :: rest) = some rest := by
  rw [expectOp, getOp_plain hplain]
  exact if_pos rfl

/-- What is pushed is read back, and what follows it is left. -/
theorem getOp_pushData_append {data : Bytes} (hlength : data.length < 2 ^ 32) (rest : Bytes) :
    ∃ opcode, opcode ≤ OP_PUSHDATA4 ∧
      getOp (pushData data ++ rest) = some ⟨opcode, data, rest⟩ := by
  have hread {opcode : Byte} {sized : Bytes}
      (hsize : pushSize opcode (sized ++ rest) = some (data.length, data ++ rest)) :
      getOp ((opcode :: sized) ++ rest) = some ⟨opcode, data, rest⟩ := by
    rw [List.cons_append, getOp, hsize]
    dsimp only
    rw [if_neg (by rw [List.length_append]; omega), List.take_left, List.drop_left]
  have hsized (bytes : ℕ) (hfits : data.length < 256 ^ bytes) :
      (if (putLE data.length bytes ++ data ++ rest).length < bytes then none
        else some (getLE (putLE data.length bytes ++ data ++ rest) bytes,
          (putLE data.length bytes ++ data ++ rest).drop bytes)) =
        some (data.length, data ++ rest) := by
    rw [List.append_assoc, if_neg (by rw [List.length_append, length_putLE]; omega),
      getLE_putLE hfits, drop_putLE]
  unfold pushData
  split_ifs with hone htwo hfour
  · have hto : (BitVec.ofNat 8 data.length).toNat = data.length :=
      Nat.mod_eq_of_lt (Nat.lt_trans hone (by decide))
    have hsmall : BitVec.ofNat 8 data.length < OP_PUSHDATA1 := by
      rw [BitVec.lt_def, hto]
      exact hone
    refine ⟨_, ?_, hread ?_⟩
    · exact BitVec.le_of_lt (BitVec.lt_trans hsmall (by decide))
    · rw [pushSize, if_pos hsmall, hto]
  · exact ⟨OP_PUSHDATA1, by decide, hread (hsized 1 (by omega))⟩
  · exact ⟨OP_PUSHDATA2, by decide, hread (hsized 2 (by omega))⟩
  exact ⟨OP_PUSHDATA4, by decide, hread (hsized 4 (by omega))⟩

theorem addressOf_putLE (id : Hash160) : addressOf (putLE id.toNat 20) = id := by
  rw [addressOf, getLE_putLE_all id.isLt, BitVec.ofNat_toNat, BitVec.setWidth_eq]

/-- The elements end where each push is followed by its `OP_DROP`. -/
theorem onlyDrops_dropped {elements : List Bytes}
    (hlengths : ∀ element ∈ elements, element.length < 2 ^ 32) {fuel : ℕ}
    (hfuel : elements.length ≤ fuel) : onlyDrops fuel (elements.flatMap pushAndDrop) = true := by
  induction elements generalizing fuel with
  | nil =>
    cases fuel with
    | zero => rfl
    | succ fuel => rfl
  | cons element elements ih =>
    cases fuel with
    | zero => exact absurd hfuel (Nat.not_succ_le_zero _)
    | succ fuel =>
      obtain ⟨opcode, hpush, hop⟩ := getOp_pushData_append (hlengths element (.head _))
        (OP_DROP :: elements.flatMap pushAndDrop)
      have hsplit : (element :: elements).flatMap pushAndDrop =
          pushData element ++ OP_DROP :: elements.flatMap pushAndDrop := by
        rw [List.flatMap_cons, pushAndDrop, List.append_assoc, List.singleton_append]
      have hne : (element :: elements).flatMap pushAndDrop ≠ [] := by
        rw [hsplit]
        exact List.append_ne_nil_of_right_ne_nil _ (List.cons_ne_nil _ _)
      rw [onlyDrops, if_neg hne, hsplit, hop]
      dsimp only
      rw [if_neg (BitVec.not_lt.mpr hpush)]
      exact ih (fun other hother => hlengths other (.tail _ hother))
        (Nat.le_of_succ_le_succ hfuel)

theorem length_addressBytes (id : Hash160) : (putLE id.toNat 20).length < 2 ^ 32 := by
  rw [length_putLE]
  decide

theorem multiElementScript_key (id : Hash160) (elements : List Bytes) :
    multiElementScript (.key id) elements = OP_DUP :: OP_HASH160 :: (pushData (putLE id.toNat 20) ++
        OP_EQUALVERIFY :: OP_CHECKSIG :: elements.flatMap pushAndDrop) := by
  simp [multiElementScript, getScriptForDestination]

theorem multiElementScript_script (id : Hash160) (elements : List Bytes) :
    multiElementScript (.script id) elements = OP_HASH160 :: (pushData (putLE id.toNat 20) ++
        OP_EQUAL :: elements.flatMap pushAndDrop) := by
  simp [multiElementScript, getScriptForDestination]

section Found

variable (env : ScriptEnv)

/-- The head of the script of an address is read up to the elements. -/
theorem extractHead_multiElement {address : Destination} (haddress : address ≠ .none)
    (elements : List Bytes) : extractHead env (multiElementScript address elements) =
      (typeOf address, [address], some (elements.flatMap pushAndDrop)) := by
  cases address with
  | none => exact absurd rfl haddress
  | key id =>
    obtain ⟨opcode, -, hop⟩ := getOp_pushData_append (length_addressBytes id)
      (OP_EQUALVERIFY :: OP_CHECKSIG :: elements.flatMap pushAndDrop)
    rw [multiElementScript_key, extractHead, getOp_plain (by decide)]
    dsimp only
    rw [expectOp_plain (by decide)]
    dsimp only
    rw [hop]
    dsimp only
    rw [addressOf_putLE]
    rfl
  | script id =>
    obtain ⟨opcode, -, hop⟩ := getOp_pushData_append (length_addressBytes id)
      (OP_EQUAL :: elements.flatMap pushAndDrop)
    rw [multiElementScript_script, extractHead, getOp_plain (by decide)]
    dsimp only
    rw [hop]
    dsimp only
    rw [addressOf_putLE]
    rfl

end Found

section Scanned

variable (params : ChainParams)

/-- What a round before `OP_RETURN` keeps of the operation itself. -/
theorem step_of_before (op : ScriptOp) {scan after : Scan} (hbefore : scan.afterReturn = false)
    (hafter : scan.beforeReturn op.opcode = after) (hstill : after.afterReturn = false) :
    (scan.step params op).afterReturn = false ∧
      (scan.step params op).script.elements = after.script.elements ∧
      (scan.step params op).lastPush = nextPush params op.opcode op.data := by
  rw [Scan.step, hbefore, if_neg Bool.false_ne_true, hafter]
  rw [hstill]
  exact ⟨rfl, rfl, rfl⟩

theorem step_other (op : ScriptOp) {scan : Scan} (hbefore : scan.afterReturn = false)
    (hreturn : op.opcode ≠ OP_RETURN) (hdrop : op.opcode ≠ OP_DROP) :
    (scan.step params op).afterReturn = false ∧
      (scan.step params op).script.elements = scan.script.elements ∧
      (scan.step params op).lastPush = nextPush params op.opcode op.data := by
  have hafter : scan.beforeReturn op.opcode =
      { scan with
        script :=
          { scan.script with isDirty := scan.script.isDirty || scan.lastPush.isSome } } := by
    rw [Scan.beforeReturn]
    rw [if_neg hreturn, if_neg hdrop]
  have hstep := step_of_before params op hbefore hafter
  exact hstep hbefore

theorem step_drop (rest : Bytes) {data : Bytes} {scan : Scan} (hbefore : scan.afterReturn = false)
    (hpush : scan.lastPush = some data) :
    (scan.step params ⟨OP_DROP, [], rest⟩).afterReturn = false ∧
      (scan.step params ⟨OP_DROP, [], rest⟩).script.elements = scan.script.elements ++ [data] := by
  have hafter : scan.beforeReturn OP_DROP =
      { scan with script := { scan.script with isOpDrop := true }.addElement data } := by
    rw [Scan.beforeReturn]
    rw [if_neg (by decide), if_pos rfl, hpush]
  obtain ⟨hstill, helements, -⟩ := step_of_before params ⟨OP_DROP, [], rest⟩ hbefore hafter hbefore
  exact ⟨hstill, helements⟩

/-- What `SetScript` adds for the rest of a script, when it has rounds enough left. -/
def ReadsElements (script : Bytes) (rounds : ℕ) (elements : List Bytes) : Prop :=
  ∀ (fuel : ℕ) (scan : Scan), rounds ≤ fuel → scan.afterReturn = false →
    (scanFrom params fuel script scan).elements = scan.script.elements ++ elements

variable {params}

theorem readsElements_nil : ReadsElements params [] 0 [] := by
  intro fuel scan hfuel hbefore
  have hfinish : scan.finish.elements = scan.script.elements := by
    rw [Scan.finish, hbefore, if_neg Bool.false_ne_true]
  rw [List.append_nil]
  cases fuel with
  | zero => exact hfinish
  | succ fuel => exact hfinish

theorem scanFrom_succ {script : Bytes} {op : ScriptOp} {scan : Scan}
    (hop : getOp script = some op) (hbefore : scan.afterReturn = false) (fuel : ℕ) :
    scanFrom params (fuel + 1) script scan = scanFrom params fuel op.rest (scan.step params op) := by
  have hne : script ≠ [] := by
    intro heq
    rw [heq] at hop
    cases hop
  rw [scanFrom, if_neg hne, hop]
  dsimp only
  rw [hbefore, if_neg Bool.false_ne_true]

theorem ReadsElements.other {script rest data : Bytes} {opcode : Byte} {rounds : ℕ}
    {elements : List Bytes} (hrest : ReadsElements params rest rounds elements)
    (hop : getOp script = some ⟨opcode, data, rest⟩) (hreturn : opcode ≠ OP_RETURN)
    (hdrop : opcode ≠ OP_DROP) : ReadsElements params script (rounds + 1) elements := by
  intro fuel scan hfuel hbefore
  obtain ⟨-, rfl⟩ := Nat.exists_eq_add_of_le' hfuel
  obtain ⟨hstill, hsame, -⟩ := step_other params ⟨opcode, data, rest⟩ hbefore hreturn hdrop
  rw [← Nat.add_assoc, scanFrom_succ hop hbefore, hrest _ _ (Nat.le_add_left _ _) hstill, hsame]

/-- A push with its `OP_DROP` is one more element. -/
theorem ReadsElements.cons {rest element : Bytes} {rounds : ℕ} {elements : List Bytes}
    (hrest : ReadsElements params rest rounds elements) (hne : element ≠ [])
    (hlength : element.length < 2 ^ 32) :
    ReadsElements params (pushAndDrop element ++ rest) (rounds + 2) (element :: elements) := by
  intro fuel scan hfuel hbefore
  obtain ⟨-, rfl⟩ := Nat.exists_eq_add_of_le' hfuel
  obtain ⟨opcode, hpush, hop⟩ := getOp_pushData_append hlength (OP_DROP :: rest)
  have hother {other : Byte} (hlarge : OP_PUSHDATA4 < other) : opcode ≠ other := by
    intro heq
    exact BitVec.not_lt.mpr hpush (heq ▸ hlarge)
  obtain ⟨hpushed, hsame, hlast⟩ := step_other params ⟨opcode, element, OP_DROP :: rest⟩
    hbefore (hother (by decide)) (hother (by decide))
  have hnext : nextPush params opcode element = some element := if_pos hne
  obtain ⟨hstill, hmore⟩ := step_drop params rest hpushed (hlast.trans hnext)
  have hsplit : pushAndDrop element ++ rest = pushData element ++ OP_DROP :: rest := by
    rw [pushAndDrop, List.append_assoc, List.singleton_append]
  rw [hsplit, ← Nat.add_assoc, scanFrom_succ hop hbefore,
    scanFrom_succ (getOp_plain (by decide) rest) hpushed, hrest _ _ (Nat.le_add_left _ _) hstill,
    hmore, hsame, List.append_assoc, List.singleton_append]

theorem readsElements_dropped {elements : List Bytes}
    (helements : ∀ element ∈ elements, element ≠ [] ∧ element.length < 2 ^ 32) :
    ReadsElements params (elements.flatMap pushAndDrop) (2 * elements.length) elements := by
  induction elements with
  | nil => exact readsElements_nil
  | cons element elements ih =>
    obtain ⟨hne, hlength⟩ := helements element (.head _)
    exact ReadsElements.cons
      (ih fun other hother => helements other (.tail _ hother)) hne hlength

/-- The address adds no element to those behind it. -/
theorem readsElements_multiElement {address : Destination} (haddress : address ≠ .none)
    {elements : List Bytes}
    (helements : ∀ element ∈ elements, element ≠ [] ∧ element.length < 2 ^ 32) :
    ReadsElements params (multiElementScript address elements) (2 * elements.length + 5)
      elements := by
  have hrest : ReadsElements params (elements.flatMap pushAndDrop) (2 * elements.length) elements :=
    readsElements_dropped helements
  have hpushed {rest : Bytes} {rounds : ℕ} (id : Hash160)
      (hafter : ReadsElements params rest rounds elements) :
      ReadsElements params (pushData (putLE id.toNat 20) ++ rest) (rounds + 1) elements := by
    obtain ⟨opcode, hpush, hop⟩ := getOp_pushData_append (length_addressBytes id) rest
    have hother {other : Byte} (hlarge : OP_PUSHDATA4 < other) : opcode ≠ other := by
      intro heq
      exact BitVec.not_lt.mpr hpush (heq ▸ hlarge)
    exact hafter.other hop (hother (by decide)) (hother (by decide))
  have hplain {rest : Bytes} {rounds : ℕ} (opcode : Byte) (hlarge : OP_PUSHDATA4 < opcode)
      (hreturn : opcode ≠ OP_RETURN) (hdrop : opcode ≠ OP_DROP)
      (hafter : ReadsElements params rest rounds elements) :
      ReadsElements params (opcode :: rest) (rounds + 1) elements :=
    hafter.other (getOp_plain hlarge rest) hreturn hdrop
  cases address with
  | none => exact absurd rfl haddress
  | key id =>
    have hsig := hplain OP_CHECKSIG (by decide) (by decide) (by decide) hrest
    have hequal := hplain OP_EQUALVERIFY (by decide) (by decide) (by decide) hsig
    have hhash := hplain OP_HASH160 (by decide) (by decide) (by decide) (hpushed id hequal)
    exact hplain OP_DUP (by decide) (by decide) (by decide) hhash
  | script id =>
    have hequal := hplain OP_EQUAL (by decide) (by decide) (by decide) hrest
    have hhash := hplain OP_HASH160 (by decide) (by decide) (by decide) (hpushed id hequal)
    intro fuel scan hfuel hbefore
    exact hhash fuel scan (by omega) hbefore

theorem length_multiElementScript {address : Destination} (haddress : address ≠ .none)
    (elements : List Bytes) :
    2 * elements.length + 5 ≤ (multiElementScript address elements).length := by
  have hdata (data : Bytes) : data.length + 1 ≤ (pushData data).length := by
    unfold pushData
    split_ifs <;> simp
  have helements : 2 * elements.length ≤ (elements.flatMap pushAndDrop).length := by
    induction elements with
    | nil => exact Nat.le_refl _
    | cons element elements ih =>
      have hone : 2 ≤ (pushAndDrop element).length := by
        rw [pushAndDrop, List.length_append, List.length_singleton]
        have := hdata element
        omega
      rw [List.flatMap_cons, List.length_append, List.length_cons]
      omega
  have haddressLength (id : Hash160) : 21 ≤ (pushData (putLE id.toNat 20)).length := by
    have := hdata (putLE id.toNat 20)
    rwa [length_putLE] at this
  cases address with
  | none => exact absurd rfl haddress
  | key id =>
    have := haddressLength id
    rw [multiElementScript_key]
    simp only [List.length_cons, List.length_append]
    omega
  | script id =>
    have := haddressLength id
    rw [multiElementScript_script]
    simp only [List.length_cons, List.length_append]
    omega

end Scanned

/-- The address and the elements of a script are read as they were written.  The maximum is the
chain's `maxstdelementsize`, a size that an `int` holds. -/
theorem multiElement_read (env : ScriptEnv) {params : ChainParams}
    (hfixed : params.fixedDestinationExtraction = true) {maxElementSize : ℕ}
    (hmax : maxElementSize < 2 ^ 31) {address : Destination} (haddress : address ≠ .none)
    {elements : List Bytes}
    (helements : ∀ element ∈ elements, element ≠ [] ∧ element.length ≤ maxElementSize) :
    extractDestinations env params (multiElementScript address elements) =
        ⟨true, typeOf address, [address]⟩ ∧
      extractDestination env params (multiElementScript address elements) = some address ∧
      (setScript params (multiElementScript address elements)).elements = elements ∧
      (setScript params (multiElementScript address elements)).numElements = elements.length := by
  have hsizes : ∀ element ∈ elements, element ≠ [] ∧ element.length < 2 ^ 32 := by
    intro element hmem
    obtain ⟨hne, hlength⟩ := helements element hmem
    exact ⟨hne, by omega⟩
  have hlong := length_multiElementScript haddress elements
  have hfound : extractDestinations env params (multiElementScript address elements) =
      ⟨true, typeOf address, [address]⟩ := by
    rw [extractDestinations, if_neg (by rw [hfixed]; decide), extractHead_multiElement env haddress]
    dsimp only
    rw [if_pos (onlyDrops_dropped (fun element hmem => (hsizes element hmem).2) (by omega))]
  have hread : (setScript params (multiElementScript address elements)).elements = elements :=
    readsElements_multiElement haddress hsizes _ ⟨cleared, none, false⟩ hlong rfl
  refine ⟨hfound, ?_, hread, ?_⟩
  · have htype : typeOf address ≠ .multisig := by
      cases address <;> exact TxnOutType.noConfusion
    rw [extractDestination, hfound]
    rw [if_neg (by simp [htype])]
    rfl
  rw [numElements, hread]

/-- A key hash with two elements on the chain's defaults. -/
theorem multiElement_read_pair :
    extractDestination ⟨fun _ => 0, fun _ => ⟨false, .nonstandard, []⟩⟩ .defaults
        (multiElementScript (.key 7) [[1, 2], [0]]) = some (.key 7) ∧
      (setScript .defaults (multiElementScript (.key 7) [[1, 2], [0]])).elements =
        [[1, 2], [0]] := by
  have hread := @multiElement_read ⟨fun _ => 0, fun _ => ⟨false, .nonstandard, []⟩⟩ .defaults
    (by decide) 8192 (by decide) (.key 7) (by decide) [[1, 2], [0]] (by decide)
  exact ⟨hread.2.1, hread.2.2.1⟩

end Amberchain.Script
