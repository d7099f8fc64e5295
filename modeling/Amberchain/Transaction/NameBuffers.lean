import Amberchain.Base.Memory
import Amberchain.Entity.SoundRuns
import Amberchain.Transaction.Issue

/-!
# The buffers of entity names

The name of an entity is copied from its details into three buffers of a fixed size, and the
multiple of an asset is shifted into 64 bits.  No size is compared before.
-/

namespace Amberchain.Transaction

open Entity AssetDB Details

/-- `memcpy` to the start of a buffer, with a NUL behind. -/
def copyTerminated (buffer value : Bytes) : Option Bytes := do
  let copied ← Memory.write buffer 0 value
  Memory.write copied value.length [0]

/-- The loop of `mc_GetLE`; none where a byte is shifted out of 64 bits. -/
def shiftLE (result : BitVec 64) (shift : ℕ) : Bytes → Option (BitVec 64)
  | [] => some result
  | byte :: bytes =>
    if shift < 64 then shiftLE (result ||| byte.setWidth 64 <<< shift) (shift + 8) bytes
    else none

/-- `asset_name` and `stream_name`, before the name is copied. -/
def nameBuffer : Bytes :=
  List.replicate (MC_ENT_MAX_NAME_SIZE + 1) 0

def copyAssetName (details : Bytes) : Option Bytes :=
  match findSpecialParam details MC_ENT_SPRM_NAME with
  | none => some nameBuffer
  | some value => copyTerminated nameBuffer value

def readMultiple (details : Bytes) : Option (BitVec 64) :=
  match findSpecialParam details MC_ENT_SPRM_ASSET_MULTIPLE with
  | none => some 1
  | some value => shiftLE 0 0 value

/-- What `AcceptAssetGenesisFromPredefinedIssuers` reads from the details of a new asset. -/
def readAssetDetails (details : Bytes) : Option (Bytes × BitVec 64) := do
  let name ← copyAssetName details
  let multiple ← readMultiple details
  return (name, multiple)

/-- An output of the loop in `AcceptAssetGenesisFromPredefinedIssuers`: none where it copies
out of bounds, otherwise what it reads of the details of a new asset. -/
def readNewAsset (env : TxEnv) (scan : IssueScan) (output : Bytes) :
    Option (Option (Bytes × BitVec 64)) :=
  let script := McScript.setScript env.params output
  if script.isOpReturn ∧ env.params.opDropDetailsScripts ∧ script.numElements = 2 then
    match (script.setElement 0).getNewEntity with
    | .error _ => some none
    | .ok entity =>
      if entity.type = MC_ENT_TYPE_ASSET ∧ scan.detailsUpdate = none ∧ entity.update = false then
        (readAssetDetails entity.details).map some
      else some none
  else some none

/-- `InsertEntity` where it reads the name: the parameter that it stores once more. -/
def copyStreamName (script : Bytes) : Option Bytes :=
  match findSpecialParam script MC_ENT_SPRM_NAME with
  | none => some []
  | some name =>
    if name ≠ [] ∧ name.getLast? ≠ some 0 then
      (copyTerminated nameBuffer name).map fun buffer =>
        specialParam MC_ENT_SPRM_NAME (cString buffer ++ [0])
    else some []

/-- `mc_EntityDetails::Set` where it fills `m_Name`. -/
def copyEntityName (params : ChainParams) (script : Bytes) : Option Bytes :=
  let buffer : Bytes := List.replicate MC_ENT_NAME_BUFFER_SIZE 0
  match scriptName params script with
  | none => some buffer
  | some name => do
    let copied ← Memory.write buffer 0 name
    Memory.write copied 0 (lowerCase (copied.take name.length))

theorem write_isSome_iff {memory block : Bytes} {offset : ℕ} :
    (Memory.write memory offset block).isSome ↔ offset + block.length ≤ memory.length := by
  rw [Memory.write]
  split
  · simp only [Option.isSome_some, true_iff]
    omega
  simp only [Option.isSome_none, Bool.false_eq_true, false_iff]
  omega

theorem copyTerminated_isSome_iff {buffer value : Bytes} :
    (copyTerminated buffer value).isSome ↔ value.length < buffer.length := by
  have hfirst := @write_isSome_iff buffer value 0
  rw [copyTerminated, Option.bind_eq_bind]
  cases hwrite : Memory.write buffer 0 value with
  | none =>
    rw [Int.ofNat_zero, hwrite] at hfirst
    simp only [Option.bind_none, Option.isSome_none, Bool.false_eq_true, false_iff]
    intro hlt
    exact absurd (hfirst.mpr (by omega)) (by simp)
  | some copied =>
    rw [Option.bind_some, write_isSome_iff, Memory.length_write hwrite]
    exact Nat.succ_le_iff

theorem shiftLE_isSome_iff {bytes : Bytes} : ∀ {result : BitVec 64} {count : ℕ}, count ≤ 8 →
    ((shiftLE result (8 * count) bytes).isSome ↔ count + bytes.length ≤ 8) := by
  induction bytes with
  | nil =>
    intro result count hcount
    simp only [shiftLE, Option.isSome_some, List.length_nil, true_iff]
    exact hcount
  | cons byte bytes ih =>
    intro result count hcount
    rw [shiftLE, List.length_cons]
    split
    · rw [show 8 * count + 8 = 8 * (count + 1) by omega, ih (by omega)]
      omega
    simp only [Option.isSome_none, Bool.false_eq_true, false_iff]
    omega

/-- What `AcceptAssetGenesisFromPredefinedIssuers` asks of the details of a new asset: a name of
at most 32 bytes and a multiple of at most 8. -/
def AssetDetailsFit (details : Bytes) : Prop :=
  (∀ name ∈ findSpecialParam details MC_ENT_SPRM_NAME, name.length ≤ MC_ENT_MAX_NAME_SIZE)
    ∧ ∀ value ∈ findSpecialParam details MC_ENT_SPRM_ASSET_MULTIPLE, value.length ≤ 8

theorem readAssetDetails_isSome_iff {details : Bytes} :
    (readAssetDetails details).isSome ↔ AssetDetailsFit details := by
  have hname : (copyAssetName details).isSome
      ↔ ∀ name ∈ findSpecialParam details MC_ENT_SPRM_NAME,
        name.length ≤ MC_ENT_MAX_NAME_SIZE := by
    rw [copyAssetName]
    cases findSpecialParam details MC_ENT_SPRM_NAME with
    | none => simp
    | some value =>
      rw [copyTerminated_isSome_iff]
      simp only [Option.mem_some_iff, forall_eq']
      exact Nat.lt_succ_iff
  have hmultiple : (readMultiple details).isSome
      ↔ ∀ value ∈ findSpecialParam details MC_ENT_SPRM_ASSET_MULTIPLE, value.length ≤ 8 := by
    rw [readMultiple]
    cases findSpecialParam details MC_ENT_SPRM_ASSET_MULTIPLE with
    | none => simp
    | some value =>
      simp only [Option.mem_some_iff, forall_eq']
      rw [shiftLE_isSome_iff (Nat.zero_le 8), Nat.zero_add]
  rw [AssetDetailsFit, ← hname, ← hmultiple, readAssetDetails]
  cases copyAssetName details <;> cases readMultiple details <;> simp

theorem copyStreamName_isSome_iff {script : Bytes} :
    (copyStreamName script).isSome ↔ StreamNameFits script := by
  rw [copyStreamName, StreamNameFits]
  cases findSpecialParam script MC_ENT_SPRM_NAME with
  | none => simp
  | some name =>
    simp only [Option.mem_some_iff, forall_eq']
    split
    next hcopied =>
      rw [Option.isSome_map, copyTerminated_isSome_iff, or_iff_right hcopied.2]
      exact Nat.lt_succ_iff
    next hskipped =>
      simp only [Option.isSome_some, true_iff]
      obtain rfl | hlast := not_and_or.mp hskipped |>.imp not_not.mp not_not.mp
      · exact .inr (Nat.zero_le _)
      exact .inl hlast

theorem copyEntityName_isSome_iff {params : ChainParams} {script : Bytes} :
    (copyEntityName params script).isSome
      ↔ ∀ name ∈ scriptName params script, name.length ≤ MC_ENT_NAME_BUFFER_SIZE := by
  rw [copyEntityName]
  cases scriptName params script with
  | none => simp
  | some name =>
    have hfirst := @write_isSome_iff (List.replicate MC_ENT_NAME_BUFFER_SIZE 0) name 0
    rw [List.length_replicate, Nat.zero_add] at hfirst
    simp only [Option.mem_some_iff, forall_eq', Option.bind_eq_bind]
    rw [← hfirst]
    cases hwrite : Memory.write (List.replicate MC_ENT_NAME_BUFFER_SIZE 0) 0 name with
    | none => simp
    | some copied =>
      rw [Option.bind_some, ← Int.ofNat_zero, write_isSome_iff, lowerCase]
      simp

/-- The three copies stay inside their buffers exactly for the details whose names are short
enough: wherever the loop over the outputs is, whatever it meets there, for every script that
`InsertEntity` is given and every script of a row. -/
theorem nameBuffers_kept_iff (env : TxEnv) :
    (∀ (scan : IssueScan) (output : Bytes), (readNewAsset env scan output).isSome
      ↔ (McScript.setScript env.params output).isOpReturn = true →
        env.params.opDropDetailsScripts = true →
        (McScript.setScript env.params output).numElements = 2 →
        ∀ entity, ((McScript.setScript env.params output).setElement 0).getNewEntity = .ok entity →
          entity.type = MC_ENT_TYPE_ASSET → scan.detailsUpdate = none → entity.update = false →
          AssetDetailsFit entity.details)
      ∧ (∀ script, (copyStreamName script).isSome ↔ StreamNameFits script)
      ∧ ∀ script, (copyEntityName env.params script).isSome
        ↔ ∀ name ∈ scriptName env.params script, name.length ≤ MC_ENT_NAME_BUFFER_SIZE := by
  refine ⟨fun scan output => ?_, fun _ => copyStreamName_isSome_iff,
    fun _ => copyEntityName_isSome_iff⟩
  rw [readNewAsset]
  split
  next hshape =>
    obtain ⟨hreturn, hdrop, htwo⟩ := hshape
    cases hentity : ((McScript.setScript env.params output).setElement 0).getNewEntity with
    | error err => simp
    | ok entity =>
      dsimp only
      split
      next hnew =>
        obtain ⟨htype, hscan, hupdate⟩ := hnew
        rw [Option.isSome_map, readAssetDetails_isSome_iff]
        constructor
        · intro hfit _ _ _ other hother _ _ _
          cases hother
          exact hfit
        · exact fun hall => hall hreturn hdrop htwo entity rfl htype hscan hupdate
      next hnew =>
        simp only [Option.isSome_some, true_iff]
        intro _ _ _ other hother htype hscan hupdate
        cases hother
        exact absurd ⟨htype, hscan, hupdate⟩ hnew
  next hshape =>
    simp only [Option.isSome_some, true_iff]
    exact fun hreturn hdrop htwo => absurd ⟨hreturn, hdrop, htwo⟩ hshape

def longNameDetails : Bytes :=
  specialParam MC_ENT_SPRM_NAME (List.replicate 33 0x61)

/-- An output with these details: one `OP_DROP` and `OP_RETURN`. -/
def longNameOutput : Bytes :=
  (41 : Byte) :: [0x73, 0x70, 0x6b, 0x6e, 0x01] ++ longNameDetails ++ [0x75, 0x6a]

/-- The details verify, and both names leave their buffers. -/
theorem longName_leaves_buffers :
    ¬ ∀ (params : ChainParams) (output : Bytes) (entity : McScript.NewEntity),
      (McScript.setScript params output).isOpReturn = true →
      (McScript.setScript params output).numElements = 2 →
      ((McScript.setScript params output).setElement 0).getNewEntity = .ok entity →
      verify entity.details = true →
      (readAssetDetails entity.details).isSome ∧ (copyStreamName entity.details).isSome := by
  intro hall
  have hread : ((McScript.setScript .defaults longNameOutput).setElement 0).getNewEntity
      = .ok ⟨1, false, longNameDetails⟩ := by
    rfl
  have hkept := hall .defaults longNameOutput _ (by decide +kernel) (by decide +kernel) hread
    (by decide +kernel)
  exact absurd (readAssetDetails_isSome_iff.mp hkept.1).1 (by decide +kernel)

end Amberchain.Transaction
