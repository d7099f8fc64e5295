import Amberchain.Script.Elements
import Mathlib.Data.List.Basic
import Mathlib.Data.List.Induction

/-!
# Writing script elements

The `Set…` functions of `mc_Script` add an element: an identifier, a one-byte
marker, and fields of fixed size or a text.
-/

namespace Amberchain

def MC_DCT_SCRIPT_MULTICHAIN_BLOCK_SIGNATURE_PREFIX : Byte := 0x62

namespace McScript

variable (script : McScript)

/-- `AddElement` and the `SetData` of an identifier, a marker and what follows. -/
def addTagged (identifier : Bytes) (marker : Byte) (data : Bytes) : McScript :=
  script.addElement (identifier ++ marker :: data)

def setPermission (type blockFrom blockTo timestamp : BitVec 32) : Except McError McScript :=
  .ok (script.addTagged MC_DCT_SCRIPT_MULTICHAIN_IDENTIFIER
    MC_DCT_SCRIPT_MULTICHAIN_PERMISSIONS_PREFIX (putLE type.toNat 4 ++ (putLE blockFrom.toNat 4
      ++ (putLE blockTo.toNat 4 ++ putLE timestamp.toNat 4))))

def setBlockSignature (sig : Bytes) (hashType : BitVec 32) (key : Bytes) :
    Except McError McScript :=
  if 0xff < sig.length ∨ 0xff < key.length then .error .invalidParameterValue
  else
    .ok (script.addTagged MC_DCT_SCRIPT_FREE_DATA_IDENTIFIER
      MC_DCT_SCRIPT_MULTICHAIN_BLOCK_SIGNATURE_PREFIX
      (putLE sig.length 1 ++ (sig ++ (putLE hashType.toNat 1 ++ (putLE key.length 1 ++ key)))))

def setAssetGenesis (quantity : BitVec 64) : Except McError McScript :=
  if quantity.msb then .error .notAllowed
  else
    .ok (script.addTagged MC_DCT_SCRIPT_MULTICHAIN_IDENTIFIER
      MC_DCT_SCRIPT_MULTICHAIN_ASSET_GENESIS_PREFIX (putLE quantity.toNat 8))

/-- `SetAssetDetails`; the name ends before its first NUL byte. -/
def setAssetDetails (name : Bytes) (multiple : BitVec 32) (details : Bytes) :
    Except McError McScript :=
  if MC_ENT_MAX_SCRIPT_SIZE < details.length then .error .invalidParameterValue
  else
    .ok (script.addTagged MC_DCT_SCRIPT_FREE_DATA_IDENTIFIER
      MC_DCT_SCRIPT_MULTICHAIN_ASSET_DETAILS_PREFIX
      (putLE multiple.toNat 4 ++ (name.takeWhile (fun byte => byte ≠ 0) ++ 0 :: details)))

def setGeneralDetails (details : Bytes) : Except McError McScript :=
  if MC_ENT_MAX_SCRIPT_SIZE < details.length then .error .invalidParameterValue
  else
    .ok (script.addTagged MC_DCT_SCRIPT_FREE_DATA_IDENTIFIER
      MC_DCT_SCRIPT_MULTICHAIN_GENERAL_DETAILS_PREFIX details)

def setApproval (approval timestamp : BitVec 32) : Except McError McScript :=
  .ok (script.addTagged MC_DCT_SCRIPT_MULTICHAIN_IDENTIFIER MC_DCT_SCRIPT_MULTICHAIN_APPROVE_PREFIX
    (putLE approval.toNat 1 ++ putLE timestamp.toNat 4))

/-- `SetNewEntityType` with a details script. -/
def setNewEntity (type : BitVec 32) (update : Bool) (details : Bytes) : Except McError McScript :=
  if MC_ENT_MAX_SCRIPT_SIZE < details.length then .error .invalidParameterValue
  else if ¬ Details.verify details then .error .errorInScript
  else
    .ok (script.addTagged MC_DCT_SCRIPT_MULTICHAIN_IDENTIFIER
      (if update then MC_DCT_SCRIPT_MULTICHAIN_UPDATE_ENTITY_PREFIX
        else MC_DCT_SCRIPT_MULTICHAIN_NEW_ENTITY_PREFIX) (putLE type.toNat 1 ++ details))

/-- `SetNewEntityType` with the type alone. -/
def setNewEntityType (type : BitVec 32) : Except McError McScript :=
  .ok (script.addTagged MC_DCT_SCRIPT_MULTICHAIN_IDENTIFIER
    MC_DCT_SCRIPT_MULTICHAIN_NEW_ENTITY_PREFIX (putLE type.toNat 1))

def setItemKey (key : Bytes) : Except McError McScript :=
  if MC_ENT_MAX_ITEM_KEY_SIZE < key.length then .error .invalidParameterValue
  else
    .ok (script.addTagged MC_DCT_SCRIPT_MULTICHAIN_IDENTIFIER
      MC_DCT_SCRIPT_MULTICHAIN_KEY_PREFIX key)

def setEntity (shortTxid : BitVec 128) : Except McError McScript :=
  .ok (script.addTagged MC_DCT_SCRIPT_MULTICHAIN_IDENTIFIER
    MC_DCT_SCRIPT_MULTICHAIN_ENTITY_PREFIX (putLE shortTxid.toNat MC_AST_SHORT_TXID_SIZE))

structure BlockSignature where
  sig : Bytes
  hashType : ℕ
  key : Bytes

/-- `GetBlockSignature`, with the sizes of the buffers of the caller. -/
def getBlockSignature (sigSize keySize : ℕ) : Except McError BlockSignature := do
  let data ← script.payload MC_DCT_SCRIPT_FREE_DATA_IDENTIFIER
    MC_DCT_SCRIPT_MULTICHAIN_BLOCK_SIGNATURE_PREFIX
    (fun size => MC_DCT_SCRIPT_HEADER_SIZE + 3 ≤ size)
  let sigLength := getLE data 1
  let data := data.drop 1
  if sigSize < sigLength ∨ data.length < sigLength + 2 then .error .wrongScript
  else
    let behind := data.drop sigLength
    let keyLength := getLE (behind.drop 1) 1
    if keySize < keyLength ∨ data.length ≠ sigLength + 2 + keyLength then .error .wrongScript
    else .ok ⟨data.take sigLength, getLE behind 1, (behind.drop 2).take keyLength⟩

variable {script}

theorem current_addElement (data : Bytes) :
    (script.addElement data).current = some script.elements.length :=
  rfl

theorem elements_addElement (data : Bytes) :
    (script.addElement data).elements.getD script.elements.length [] = data := by
  simp [addElement]

theorem payload_addElement (data identifier : Bytes) (marker : Byte) (size : ℕ → Bool) :
    (script.addElement data).payload identifier marker size =
      if ¬ size data.length ∨ data.take 3 ≠ identifier ∨ data[3]? ≠ some marker then
        .error .wrongScript
      else .ok (data.drop MC_DCT_SCRIPT_HEADER_SIZE) := by
  rw [payload, current_addElement]
  dsimp only
  rw [elements_addElement]

section Tagged

variable {written identifier : Bytes} {marker mark : Byte} {size : ℕ → Bool}

theorem length_tagged (hlength : identifier.length = 3) (data : Bytes) :
    (identifier ++ marker :: data).length = MC_DCT_SCRIPT_HEADER_SIZE + data.length := by
  rw [List.length_append, List.length_cons, MC_DCT_SCRIPT_HEADER_SIZE]
  omega

/-- An element of the right kind is read if its size is right. -/
theorem payload_own (hlength : identifier.length = 3) (data : Bytes) :
    (script.addTagged identifier marker data).payload identifier marker size =
      if size (MC_DCT_SCRIPT_HEADER_SIZE + data.length) then .ok data
      else .error .wrongScript := by
  rw [addTagged, payload_addElement, length_tagged hlength]
  obtain ⟨-, -, -, rfl⟩ := List.length_eq_three.mp hlength
  cases size (MC_DCT_SCRIPT_HEADER_SIZE + data.length) with
  | true =>
    rw [if_neg]
    · rfl
    · simp
  | false =>
    rw [if_pos]
    · rfl
    exact .inl Bool.false_ne_true

/-- An element of another kind. -/
theorem payload_foreign (hlength : written.length = 3)
    (hother : (written, mark) ≠ (identifier, marker)) (data : Bytes) :
    (script.addTagged written mark data).payload identifier marker size = .error .wrongScript := by
  obtain ⟨first, second, third, rfl⟩ := List.length_eq_three.mp hlength
  rw [addTagged, payload_addElement, if_pos]
  right
  by_contra hsame
  push Not at hsame
  obtain ⟨hidentifier, hmarker⟩ := hsame
  apply hother
  rw [← hidentifier]
  simpa using hmarker

end Tagged

variable (script)

/-- `SetData`, behind what the current element has. -/
def setData (data : Bytes) : McScript :=
  match script.current with
  | none => script
  | some element => { script with elements := script.elements.modify element (· ++ data) }

def setCachedScript (offset : ℕ) (entry : CachedScript) : McScript × ℕ :=
  if offset = 0 then
    (script.addTagged MC_DCT_SCRIPT_MULTICHAIN_IDENTIFIER
      MC_DCT_SCRIPT_MULTICHAIN_CASHED_SCRIPT_PREFIX [], MC_DCT_SCRIPT_HEADER_SIZE)
  else
    (((script.setData (putLE entry.vin 4)).setData (putVarInt entry.script.length)).setData
      entry.script, offset + 4 + (putVarInt entry.script.length).length + entry.script.length)

/-- A new element with the entries, as the callers of `SetCachedScript` build it. -/
def setCachedScripts (entries : List CachedScript) : McScript :=
  (entries.foldl (fun built entry => built.1.setCachedScript built.2 entry)
    (script.setCachedScript 0 ⟨0, []⟩)).1

/-- The loop over `GetCachedScript`: the entries from an offset and the error it ends with,
none when it does not end within the rounds. -/
def cachedScriptsFrom : ℕ → ℕ → Option (List CachedScript × McError)
  | 0, _ => none
  | rounds + 1, offset =>
    match script.getCachedScript offset with
    | .error error => some ([], error)
    | .ok (entry, next) =>
      (cachedScriptsFrom rounds next).map fun (rest, error) => (entry.toList ++ rest, error)

def currentData : Bytes :=
  (script.current.map fun element => script.elements.getD element []).getD []

def cachedScripts : Option (List CachedScript × McError) :=
  script.cachedScriptsFrom (script.currentData.length + 1) 0

variable {script}

theorem payload_eq_ok {identifier data : Bytes} {marker : Byte} {size : ℕ → Bool}
    (hpayload : script.payload identifier marker size = .ok data) :
    size script.currentData.length = true ∧
      data = script.currentData.drop MC_DCT_SCRIPT_HEADER_SIZE := by
  unfold payload at hpayload
  unfold currentData
  cases hcurrent : script.current with
  | none =>
    rw [hcurrent] at hpayload
    cases hpayload
  | some element =>
    rw [hcurrent] at hpayload
    dsimp only at hpayload
    split at hpayload
    · cases hpayload
    next hsize =>
    cases hpayload
    exact ⟨by_contra fun hnot => hsize (.inl hnot), rfl⟩

/-- What is found is in the element, in front of the next offset. -/
theorem getCachedScript_spec {offset next : ℕ} {entry : Option CachedScript}
    (hoffset : offset = 0 ∨ MC_DCT_SCRIPT_HEADER_SIZE ≤ offset)
    (hget : script.getCachedScript offset = .ok (entry, next)) :
    offset < next ∧ MC_DCT_SCRIPT_HEADER_SIZE ≤ next ∧ next ≤ script.currentData.length ∧
      ∀ cached ∈ entry, ∃ front back, script.currentData = front ++ cached.script ++ back ∧
        front.length + cached.script.length = next := by
  unfold getCachedScript at hget
  cases hpayload : script.payload MC_DCT_SCRIPT_MULTICHAIN_IDENTIFIER
      MC_DCT_SCRIPT_MULTICHAIN_CASHED_SCRIPT_PREFIX
      (fun size => MC_DCT_SCRIPT_HEADER_SIZE ≤ size) with
  | error error =>
    rw [hpayload] at hget
    cases hget
  | ok data =>
    obtain ⟨hsize, rfl⟩ := payload_eq_ok hpayload
    rw [decide_eq_true_eq] at hsize
    rw [hpayload] at hget
    dsimp only [bind, Except.bind] at hget
    split at hget
    · cases hget
      exact ⟨by rw [‹offset = 0›]; decide, Nat.le_refl _, hsize, nofun⟩
    next hnonzero =>
    rw [List.length_drop] at hget
    split at hget
    · cases hget
    split at hget
    · cases hget
    split at hget
    · cases hget
    split at hget
    · cases hget
    next value shift hvalue =>
    split at hget
    · cases hget
    next hfits =>
    cases hget
    refine ⟨by omega, by omega, by omega, fun cached hcached => ?_⟩
    cases hcached
    refine ⟨script.currentData.take (offset + 4 + shift),
      script.currentData.drop (offset + 4 + shift + (toInt32 value).toNat), ?_, ?_⟩
    · have hdrop : (script.currentData.drop MC_DCT_SCRIPT_HEADER_SIZE).drop
          (offset - MC_DCT_SCRIPT_HEADER_SIZE + 4 + shift) =
          script.currentData.drop (offset + 4 + shift) := by
        rw [List.drop_drop]
        congr 1
        omega
      rw [hdrop]
      generalize offset + 4 + shift = start
      rw [List.append_assoc, ← List.drop_drop, List.take_append_drop, List.take_append_drop]
    rw [List.length_take, List.length_take, List.length_drop, List.length_drop]
    omega

theorem isSome_cachedScriptsFrom {rounds offset : ℕ}
    (hoffset : offset = 0 ∨ MC_DCT_SCRIPT_HEADER_SIZE ≤ offset)
    (hle : offset ≤ script.currentData.length)
    (hrounds : script.currentData.length < rounds + offset) :
    (script.cachedScriptsFrom rounds offset).isSome = true := by
  induction rounds generalizing offset with
  | zero => omega
  | succ rounds ih =>
    rw [cachedScriptsFrom]
    cases hget : script.getCachedScript offset with
    | error error => rfl
    | ok found =>
      obtain ⟨hnext, hheader, hle, -⟩ := getCachedScript_spec hoffset hget
      rw [Option.isSome_map]
      exact ih (.inr hheader) hle (by omega)

def cachedBytes (entries : List CachedScript) : Bytes :=
  entries.flatMap fun entry => putLE entry.vin 4 ++ (putVarInt entry.script.length ++ entry.script)

def cached (script : McScript) (entries : List CachedScript) : McScript :=
  script.addTagged MC_DCT_SCRIPT_MULTICHAIN_IDENTIFIER
    MC_DCT_SCRIPT_MULTICHAIN_CASHED_SCRIPT_PREFIX (cachedBytes entries)

theorem setData_addTagged (identifier data more : Bytes) (marker : Byte) :
    (script.addTagged identifier marker data).setData more =
      script.addTagged identifier marker (data ++ more) := by
  simp [addTagged, addElement, setData, List.modify_eq_take_cons_drop]

theorem setCachedScripts_eq (entries : List CachedScript) :
    script.setCachedScripts entries = script.cached entries := by
  have hbuilt : entries.foldl (fun built entry => built.1.setCachedScript built.2 entry)
      (script.setCachedScript 0 ⟨0, []⟩) =
      (script.cached entries, MC_DCT_SCRIPT_HEADER_SIZE + (cachedBytes entries).length) := by
    induction entries using List.reverseRecOn with
    | nil => rfl
    | append_singleton entries entry ih =>
      rw [List.foldl_append, ih]
      simp only [List.foldl_cons, List.foldl_nil]
      rw [setCachedScript, if_neg (by simp [MC_DCT_SCRIPT_HEADER_SIZE])]
      simp [cached, setData_addTagged, cachedBytes, length_putLE]
      omega
  rw [setCachedScripts, hbuilt]

theorem payload_cached (entries : List CachedScript) :
    (script.cached entries).payload MC_DCT_SCRIPT_MULTICHAIN_IDENTIFIER
      MC_DCT_SCRIPT_MULTICHAIN_CASHED_SCRIPT_PREFIX
      (fun size => MC_DCT_SCRIPT_HEADER_SIZE ≤ size) = .ok (cachedBytes entries) := by
  rw [cached, payload_own rfl, if_pos (decide_eq_true (Nat.le_add_right _ _))]

theorem getCachedScript_cached {entry : CachedScript} (hvin : entry.vin < 2 ^ 31)
    (hsize : entry.script.length < 2 ^ 31) (before after : List CachedScript) :
    (script.cached (before ++ entry :: after)).getCachedScript
      (MC_DCT_SCRIPT_HEADER_SIZE + (cachedBytes before).length) =
      .ok (some entry, MC_DCT_SCRIPT_HEADER_SIZE + (cachedBytes (before ++ [entry])).length) := by
  have hdata : cachedBytes (before ++ entry :: after) = cachedBytes before ++ (putLE entry.vin 4 ++
      (putVarInt entry.script.length ++ (entry.script ++ cachedBytes after))) := by
    simp [cachedBytes]
  have hlength : (cachedBytes (before ++ [entry])).length = (cachedBytes before).length + 4 +
      (putVarInt entry.script.length).length + entry.script.length := by
    simp [cachedBytes, length_putLE]
    omega
  rw [getCachedScript, payload_cached, hdata, hlength]
  dsimp only [bind, Except.bind]
  rw [if_neg (by simp [MC_DCT_SCRIPT_HEADER_SIZE]), Nat.add_sub_cancel_left]
  have hvinFits : entry.vin < 256 ^ 4 := hvin.trans (by decide)
  simp only [← List.drop_drop, List.drop_left, drop_putLE, getLE_putLE hvinFits,
    toInt32_of_lt hvin, getVarInt_putVarInt (hsize.trans (by decide)), toInt32_of_lt hsize,
    Int.toNat_natCast, List.take_left, List.length_append, length_putLE]
  rw [if_neg (by omega), if_neg (by omega), if_neg (by omega), if_neg (by omega)]
  simp only [Nat.add_assoc]

/-- The entries behind the offset are read in order, then the element ends. -/
theorem cachedScriptsFrom_cached {after : List CachedScript}
    (hfits : ∀ entry ∈ after, entry.vin < 2 ^ 31 ∧ entry.script.length < 2 ^ 31) {rounds : ℕ}
    (hrounds : after.length < rounds) (before : List CachedScript) :
    (script.cached (before ++ after)).cachedScriptsFrom rounds
      (MC_DCT_SCRIPT_HEADER_SIZE + (cachedBytes before).length) = some (after, .wrongScript) := by
  induction after generalizing before rounds with
  | nil =>
    obtain ⟨rounds, rfl⟩ := Nat.exists_eq_add_of_lt hrounds
    rw [List.append_nil, cachedScriptsFrom, getCachedScript, payload_cached]
    dsimp only [bind, Except.bind]
    rw [if_neg (by simp [MC_DCT_SCRIPT_HEADER_SIZE]), Nat.add_sub_cancel_left, if_pos rfl]
  | cons entry after ih =>
    obtain ⟨-, rfl⟩ := Nat.exists_eq_add_of_lt hrounds
    obtain ⟨hvin, hsize⟩ := hfits entry (.head _)
    rw [cachedScriptsFrom, getCachedScript_cached hvin hsize]
    dsimp only
    rw [List.append_cons, ih (fun other hother => hfits other (.tail _ hother))
      (by simp; omega)]
    rfl

theorem length_le_cachedBytes (entries : List CachedScript) :
    entries.length ≤ (cachedBytes entries).length := by
  induction entries with
  | nil => exact Nat.le_refl 0
  | cons entry entries ih =>
    rw [cachedBytes, List.flatMap_cons, List.length_append, List.length_append, length_putLE]
    exact (Nat.succ_le_succ ih).trans (by rw [cachedBytes]; omega)

/-- What `SetCachedScript` writes is read back, and reading any element ends, goes forward
and stays inside. -/
theorem cachedScripts_exact (script : McScript) :
    (∀ entries : List CachedScript,
      (∀ entry ∈ entries, entry.vin < 2 ^ 31 ∧ entry.script.length < 2 ^ 31) →
      (script.setCachedScripts entries).cachedScripts = some (entries, .wrongScript)) ∧
    script.cachedScripts.isSome = true ∧
    ∀ offset next entry, offset = 0 ∨ MC_DCT_SCRIPT_HEADER_SIZE ≤ offset →
      script.getCachedScript offset = .ok (entry, next) → offset < next ∧
        ∀ cached ∈ entry, ∃ front back, script.currentData = front ++ cached.script ++ back ∧
          front.length + cached.script.length = next := by
  refine ⟨fun entries hfits => ?_, isSome_cachedScriptsFrom (.inl rfl) (Nat.zero_le _) (by omega),
    fun offset next entry hoffset hget => ?_⟩
  · obtain ⟨hheader, hdata⟩ := payload_eq_ok (@payload_cached script entries)
    rw [decide_eq_true_eq] at hheader
    have hlength := congrArg List.length hdata
    rw [List.length_drop] at hlength
    have hsize : 0 < MC_DCT_SCRIPT_HEADER_SIZE := by decide
    have hle := length_le_cachedBytes entries
    have hread := @cachedScriptsFrom_cached script entries hfits
      (script.cached entries).currentData.length (by omega) []
    have hstart : (script.cached entries).getCachedScript 0 =
        .ok (none, MC_DCT_SCRIPT_HEADER_SIZE + (cachedBytes []).length) := by
      rw [getCachedScript, payload_cached]
      rfl
    rw [List.nil_append] at hread
    rw [setCachedScripts_eq, cachedScripts, cachedScriptsFrom, hstart]
    dsimp only
    rw [hread]
    rfl
  obtain ⟨hlt, -, -, hinside⟩ := getCachedScript_spec hoffset hget
  exact ⟨hlt, hinside⟩

theorem cachedScripts_exact_two : (cleared.setCachedScripts [⟨1, [0x51]⟩, ⟨0, []⟩]).cachedScripts =
    some ([⟨1, [0x51]⟩, ⟨0, []⟩], .wrongScript) :=
  (cachedScripts_exact cleared).1 [⟨1, [0x51]⟩, ⟨0, []⟩] (by decide)

end McScript

end Amberchain
