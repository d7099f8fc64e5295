import Mathlib.Tactic.Ring

/-!
# Bytes, hashes and error codes

The plain values that all parts of the program share, with little-endian numbers
and the variable-length integers of scripts.
-/

namespace Amberchain

/-- Thirty-two bytes: an entity, a transaction id or a block hash. -/
abbrev Hash256 := BitVec 256

/-- Twenty bytes: an address or an upgrade id. -/
abbrev Hash160 := BitVec 160

/-- The `MC_ERR_` codes that the modelled functions return. -/
inductive McError where
  | internalError
  | dbOpenError
  | notAllowed
  | notFound
  | notSupported
  | corrupted
  | foundWrong
  | errorInScript
  | wrongScript
  | found
  | invalidParameterValue
deriving DecidableEq

abbrev Byte := BitVec 8

abbrev Bytes := List Byte

def getLE (bytes : Bytes) (size : ℕ) : ℕ :=
  (bytes.take size).foldr (fun byte value => byte.toNat + 256 * value) 0

def putLE (value : ℕ) : ℕ → Bytes
  | 0 => []
  | size + 1 => BitVec.ofNat 8 value :: putLE (value / 256) size

def varIntSize (byte : Byte) : ℕ :=
  if byte < 0xfd then 0 else if byte = 0xfd then 2 else if byte = 0xfe then 4 else 8

/-- `mc_GetVarInt`: the value and the number of bytes it takes. -/
def getVarInt : Bytes → Option (ℕ × ℕ)
  | [] => none
  | byte :: rest =>
    let size := varIntSize byte
    if rest.length < size then none
    else if size = 0 then some (byte.toNat, 1)
    else some (getLE rest size, size + 1)

def putVarInt (value : ℕ) : Bytes :=
  if value < 0xfd then putLE value 1
  else if value < 0xffff then 0xfd :: putLE value 2
  else if value < 0xffffffff then 0xfe :: putLE value 4
  else 0xff :: putLE value 8

def toInt32 (value : ℕ) : ℤ :=
  (BitVec.ofNat 32 value).toInt

end Amberchain

/-!
# Numbers as bytes

What is read back of a little-endian number or of a variable-length integer,
whatever follows it.
-/

namespace Amberchain

theorem drop_eq_take_append_drop {α : Type*} (list : List α) (start size : ℕ) :
    list.drop start = (list.drop start).take size ++ list.drop (start + size) := by
  rw [← List.drop_drop, List.take_append_drop]

@[simp]
theorem length_putLE (value size : ℕ) : (putLE value size).length = size := by
  induction size generalizing value with
  | zero => rfl
  | succ size ih =>
    rw [putLE, List.length_cons, ih]

theorem getLE_cons (byte : Byte) (rest : Bytes) (size : ℕ) :
    getLE (byte :: rest) (size + 1) = byte.toNat + 256 * getLE rest size :=
  rfl

@[simp]
theorem getLE_zero (bytes : Bytes) : getLE bytes 0 = 0 := by
  rfl

theorem getLE_eq_zero {bytes : Bytes} (hzero : ∀ byte ∈ bytes, byte = 0) :
    ∀ size, getLE bytes size = 0 := by
  induction bytes with
  | nil =>
    intro size
    cases size with
    | zero => rfl
    | succ size => rfl
  | cons byte rest ih =>
    intro size
    cases size with
    | zero => rfl
    | succ size =>
      rw [getLE_cons, ih fun other hother => hzero other (.tail _ hother),
        hzero byte (.head _)]
      rfl

theorem getLE_putLE_append (value size : ℕ) (rest : Bytes) :
    getLE (putLE value size ++ rest) size = value % 256 ^ size := by
  induction size generalizing value with
  | zero => rw [getLE_zero, pow_zero, Nat.mod_one]
  | succ size ih =>
    have hbyte : (BitVec.ofNat 8 value).toNat = value % 256 := BitVec.toNat_ofNat value 8
    rw [putLE, List.cons_append, getLE_cons, ih, hbyte, pow_succ', Nat.mod_mul]

variable {value size : ℕ}

theorem getLE_putLE (hfits : value < 256 ^ size) (rest : Bytes) :
    getLE (putLE value size ++ rest) size = value := by
  rw [getLE_putLE_append, Nat.mod_eq_of_lt hfits]

theorem getLE_putLE_all (hfits : value < 256 ^ size) : getLE (putLE value size) size = value := by
  have hread := getLE_putLE hfits []
  rwa [List.append_nil] at hread

theorem drop_putLE (value size : ℕ) (rest : Bytes) : (putLE value size ++ rest).drop size = rest :=
  List.drop_left' (length_putLE value size)

theorem drop_putLE_add (value size more : ℕ) (rest : Bytes) :
    (putLE value size ++ rest).drop (size + more) = rest.drop more := by
  rw [← List.drop_drop, drop_putLE]

theorem getLE_append {bytes : Bytes} {size : ℕ} (hsize : size ≤ bytes.length) (rest : Bytes) :
    getLE (bytes ++ rest) size = getLE bytes size := by
  rw [getLE, getLE, List.take_append_of_le_length hsize]

theorem getLE_lt (bytes : Bytes) (size : ℕ) : getLE bytes size < 256 ^ size := by
  induction size generalizing bytes with
  | zero => simp
  | succ size ih =>
    cases bytes with
    | nil => simp [getLE]
    | cons byte rest =>
      have hrest := ih rest
      rw [getLE_cons]
      omega

theorem toInt32_of_lt {value : ℕ} (hvalue : value < 2 ^ 31) : toInt32 value = value := by
  have hnat : (BitVec.ofNat 32 value).toNat = value := by
    rw [BitVec.toNat_ofNat]
    omega
  rw [toInt32, BitVec.toInt_eq_toNat_of_lt]
  · rw [hnat]
  omega

theorem toInt32_neg {value : ℕ} (hsign : 2 ^ 31 ≤ value) (hvalue : value < 2 ^ 32) :
    toInt32 value < 0 := by
  rw [toInt32, BitVec.toInt_ofNat', Int.bmod_def]
  split
  · omega
  omega

theorem getVarInt_marked {marker : Byte} (hsize : varIntSize marker = size)
    (hpos : size ≠ 0) (hfits : value < 256 ^ size) (rest : Bytes) :
    getVarInt (marker :: putLE value size ++ rest) = some (value, size + 1) := by
  have hlength : ¬ (putLE value size ++ rest).length < size := by
    rw [List.length_append, length_putLE]
    omega
  rw [List.cons_append, getVarInt, hsize, if_neg hlength, if_neg hpos, getLE_putLE hfits]

theorem getVarInt_putVarInt {value : ℕ} (hfits : value < 2 ^ 64) (rest : Bytes) :
    getVarInt (putVarInt value ++ rest) = some (value, (putVarInt value).length) := by
  rw [putVarInt]
  split
  next hbyte =>
    have hvalue : (BitVec.ofNat 8 value).toNat = value := by
      rw [BitVec.toNat_ofNat]
      omega
    have hmarker : BitVec.ofNat 8 value < 0xfd := by
      rw [BitVec.lt_def, hvalue]
      exact hbyte
    have hsize : varIntSize (BitVec.ofNat 8 value) = 0 := by
      rw [varIntSize, if_pos hmarker]
    rw [putLE, List.cons_append, getVarInt, hsize, hvalue]
    rfl
  · split
    next hshort =>
      have hfits : value < 256 ^ 2 := by omega
      exact getVarInt_marked rfl (by decide) hfits rest
    · split
      next hlong =>
        have hfits : value < 256 ^ 4 := by omega
        exact getVarInt_marked rfl (by decide) hfits rest
      · exact getVarInt_marked rfl (by decide) hfits rest

theorem getVarInt_le {bytes : Bytes}
    (hread : getVarInt bytes = some (value, size)) : 0 < size ∧ size ≤ bytes.length := by
  cases bytes with
  | nil => cases hread
  | cons byte rest =>
    rw [getVarInt] at hread
    split at hread
    · cases hread
    next hlength =>
      split at hread
      · cases hread
        simp
      cases hread
      rw [List.length_cons]
      omega

/-- Only the bytes that it takes matter to a variable-length integer. -/
theorem getVarInt_take {bytes : Bytes}
    (hread : getVarInt bytes = some (value, size)) (rest : Bytes) :
    getVarInt (bytes.take size ++ rest) = some (value, size) := by
  cases bytes with
  | nil => cases hread
  | cons byte tail =>
    rw [getVarInt] at hread
    split at hread
    · cases hread
    next hlength =>
      split at hread
      next hzero =>
        cases hread
        rw [List.take_succ_cons, List.cons_append, getVarInt, hzero]
        rw [if_neg (Nat.not_lt_zero _), if_pos rfl]
      next hzero =>
        cases hread
        have htake : (tail.take (varIntSize byte)).length = varIntSize byte := by
          rw [List.length_take]
          omega
        rw [List.take_succ_cons, List.cons_append, getVarInt, if_neg, if_neg hzero,
          getLE_append htake.ge, getLE, List.take_take, Nat.min_self, getLE]
        rw [List.length_append]
        omega

end Amberchain
