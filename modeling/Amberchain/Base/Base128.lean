import Amberchain.Base.LittleEndian

/-!
# Variable-length integers

`WriteVarInt` writes groups of seven bits, the highest first, and each group but the last has
a bit that says that more follow.  One is taken off a number before its next group, so that
every number has one encoding, unless the reader wraps.  `WriteCompactSize` marks the size of
the number instead, and its reader refuses what would have fit a smaller size.
-/

namespace Amberchain

/-- `tmp`: the groups, the lowest first; only it has no bit `0x80`. -/
def varIntGroups (n len : ℕ) : Bytes :=
  BitVec.ofNat 8 (n % 0x80 + if len = 0 then 0 else 0x80) ::
    if n ≤ 0x7f then [] else varIntGroups (n / 0x80 - 1) (len + 1)
termination_by n
decreasing_by omega

def writeVarInt (n : ℕ) : Bytes :=
  (varIntGroups n 0).reverse

/-- `WriteVarInt` of an `int`. -/
def writeVarInt32 (n : ℤ) : Bytes :=
  if n ≤ 0x7f then [BitVec.ofInt 8 (n % 0x80)] else writeVarInt n.toNat

def sizeOfVarInt (n : ℕ) : ℕ :=
  if n ≤ 0x7f then 1 else sizeOfVarInt (n / 0x80 - 1) + 1
termination_by n
decreasing_by omega

/-- `GetSizeOfVarInt` of an `int`. -/
def sizeOfVarInt32 (n : ℤ) : ℕ :=
  if n ≤ 0x7f then 1 else sizeOfVarInt n.toNat

/-- The loop of `ReadVarInt` for numbers of some width. -/
def readGroups (width n : ℕ) : Bytes → Option (ℕ × Bytes)
  | [] => none
  | chData :: rest =>
    let next := (n * 0x80 + chData.toNat % 0x80) % 2 ^ width
    if 0x80 ≤ chData.toNat then readGroups width ((next + 1) % 2 ^ width) rest
    else some (next, rest)

/-- `ReadVarInt`, with what is left. -/
def readVarInt (width : ℕ) (bytes : Bytes) : Option (ℕ × Bytes) :=
  readGroups width 0 bytes

/-- `ReadVarInt` of an `int`. -/
def readVarInt32 (bytes : Bytes) : Option (ℤ × Bytes) :=
  (readVarInt 32 bytes).map fun read => (toInt32 read.1, read.2)

/-- The loop of `ReadVarInt` for numbers of any size. -/
def exactGroups (n : ℕ) : Bytes → Option (ℕ × Bytes)
  | [] => none
  | chData :: rest =>
    let next := n * 0x80 + chData.toNat % 0x80
    if 0x80 ≤ chData.toNat then exactGroups (next + 1) rest else some (next, rest)

/-- The number that the bytes encode, whatever its size. -/
def exactVarInt (bytes : Bytes) : ℕ :=
  ((exactGroups 0 bytes).map Prod.fst).getD 0

def writeCompactSize (size : ℕ) : Bytes :=
  if size < 253 then putLE size 1
  else if size ≤ 0xffff then 253 :: putLE size 2
  else if size ≤ 0xffffffff then 254 :: putLE size 4
  else 255 :: putLE size 8

def sizeOfCompactSize (size : ℕ) : ℕ :=
  if size < 253 then 1 else if size ≤ 0xffff then 3 else if size ≤ 0xffffffff then 5 else 9

/-- The least canonical value of a number of bytes. -/
def leastCompactSize (shift : ℕ) : ℕ :=
  if shift = 1 then 0 else if shift = 3 then 253
  else if shift = 5 then 0x10000 else 0x100000000

/-- `ReadCompactSize`, with what is left; the bytes are laid out as for `mc_GetVarInt`. -/
def readCompactSize (maxSize : BitVec 32) (bytes : Bytes) : Option (ℕ × Bytes) :=
  match getVarInt bytes with
  | none => none
  | some (nSizeRet, shift) =>
    if nSizeRet < leastCompactSize shift ∨ maxSize.toNat < nSizeRet then none
    else some (nSizeRet, bytes.drop shift)

theorem readGroups_high {width n value : ℕ} (hvalue : value < 0x80) (rest : Bytes) :
    readGroups width n (BitVec.ofNat 8 (value + 0x80) :: rest) =
      readGroups width (((n * 0x80 + value) % 2 ^ width + 1) % 2 ^ width) rest := by
  have hbyte : (BitVec.ofNat 8 (value + 0x80)).toNat = value + 0x80 := by
    rw [BitVec.toNat_ofNat]
    omega
  rw [readGroups, hbyte, if_pos (Nat.le_add_left _ _), Nat.add_mod_right, Nat.mod_eq_of_lt hvalue]

theorem readGroups_low {width n value : ℕ} (hvalue : value < 0x80) (rest : Bytes) :
    readGroups width n (BitVec.ofNat 8 value :: rest) =
      some ((n * 0x80 + value) % 2 ^ width, rest) := by
  have hbyte : (BitVec.ofNat 8 value).toNat = value := by
    rw [BitVec.toNat_ofNat]
    omega
  rw [readGroups, hbyte, if_neg (Nat.not_le.mpr hvalue), Nat.mod_eq_of_lt hvalue]

/-- All groups of a number but the last one of a larger number. -/
theorem readGroups_front {width n : ℕ} (len : ℕ) (hfits : n + 1 < 2 ^ width) (rest : Bytes) :
    readGroups width 0 ((varIntGroups n (len + 1)).reverse ++ rest) =
      readGroups width (n + 1) rest := by
  induction n using Nat.strong_induction_on generalizing len rest with
  | _ n ih =>
    unfold varIntGroups
    rw [if_neg (Nat.succ_ne_zero len), List.reverse_cons, List.append_assoc, List.singleton_append]
    split
    next hle =>
      rw [List.reverse_nil, List.nil_append, readGroups_high (by omega), Nat.zero_add,
        Nat.mod_eq_of_lt (by omega : n < 0x80), Nat.mod_eq_of_lt (by omega : n < 2 ^ width),
        Nat.mod_eq_of_lt hfits]
    next hgt =>
      have hvalue : (n / 0x80 - 1 + 1) * 0x80 + n % 0x80 = n := by omega
      rw [ih _ (by omega) _ (by omega), readGroups_high (by omega), hvalue,
        Nat.mod_eq_of_lt (by omega : n < 2 ^ width), Nat.mod_eq_of_lt hfits]

theorem readVarInt_writeVarInt {width n : ℕ} (hfits : n < 2 ^ width) (rest : Bytes) :
    readVarInt width (writeVarInt n ++ rest) = some (n, rest) := by
  unfold readVarInt writeVarInt varIntGroups
  rw [if_pos rfl, Nat.add_zero, List.reverse_cons, List.append_assoc, List.singleton_append]
  split
  next hle =>
    rw [List.reverse_nil, List.nil_append, readGroups_low (by omega), Nat.zero_add,
      Nat.mod_eq_of_lt (by omega : n < 0x80), Nat.mod_eq_of_lt hfits]
  next hgt =>
    have hvalue : (n / 0x80 - 1 + 1) * 0x80 + n % 0x80 = n := by omega
    rw [readGroups_front 0 (by omega), readGroups_low (by omega), hvalue, Nat.mod_eq_of_lt hfits]

theorem writeVarInt32_of_nonneg {n : ℤ} (hnonneg : 0 ≤ n) :
    writeVarInt32 n = writeVarInt n.toNat := by
  unfold writeVarInt32
  split
  next hle =>
    obtain ⟨value, rfl⟩ := Int.eq_ofNat_of_zero_le hnonneg
    unfold writeVarInt varIntGroups
    have hsmall : value ≤ 0x7f := by omega
    have hcast : (value : ℤ) % 0x80 = ((value % 0x80 : ℕ) : ℤ) := rfl
    rw [Int.toNat_natCast, if_pos hsmall, if_pos rfl, Nat.add_zero, List.reverse_singleton, hcast,
      BitVec.ofInt_natCast]
  next => rfl

theorem readVarInt32_writeVarInt32 {n : ℤ} (hnonneg : 0 ≤ n) (hfits : n < 2 ^ 31) (rest : Bytes) :
    readVarInt32 (writeVarInt32 n ++ rest) = some (n, rest) := by
  obtain ⟨value, rfl⟩ := Int.eq_ofNat_of_zero_le hnonneg
  have hread := @readVarInt_writeVarInt 32 value (by omega) rest
  rw [writeVarInt32_of_nonneg hnonneg, Int.toNat_natCast, readVarInt32, hread, Option.map_some,
    toInt32, BitVec.toInt_eq_toNat_of_lt]
  · rw [BitVec.toNat_ofNat, Nat.mod_eq_of_lt (by omega)]
  rw [BitVec.toNat_ofNat]
  omega

theorem length_varIntGroups (n len : ℕ) : (varIntGroups n len).length = sizeOfVarInt n := by
  induction n using Nat.strong_induction_on generalizing len with
  | _ n ih =>
    unfold varIntGroups sizeOfVarInt
    rw [List.length_cons]
    split
    next hle => rfl
    next hgt => rw [ih _ (by omega)]

@[simp]
theorem length_writeVarInt (n : ℕ) : (writeVarInt n).length = sizeOfVarInt n := by
  rw [writeVarInt, List.length_reverse, length_varIntGroups]

@[simp]
theorem length_writeVarInt32 (n : ℤ) : (writeVarInt32 n).length = sizeOfVarInt32 n := by
  unfold writeVarInt32 sizeOfVarInt32
  split
  · rfl
  exact length_writeVarInt _

@[simp]
theorem length_writeCompactSize (size : ℕ) :
    (writeCompactSize size).length = sizeOfCompactSize size := by
  unfold writeCompactSize sizeOfCompactSize
  split_ifs <;> simp [length_putLE]

theorem readGroups_mod (width n : ℕ) (bytes : Bytes) :
    readGroups width (n % 2 ^ width) bytes =
      (exactGroups n bytes).map fun read => (read.1 % 2 ^ width, read.2) := by
  induction bytes generalizing n with
  | nil => rfl
  | cons chData rest ih =>
    have hnext : (n % 2 ^ width * 0x80 + chData.toNat % 0x80) % 2 ^ width =
        (n * 0x80 + chData.toNat % 0x80) % 2 ^ width := by
      rw [Nat.add_mod, Nat.mod_mul_mod, ← Nat.add_mod]
    rw [readGroups, exactGroups, hnext]
    split
    · rw [Nat.mod_add_mod, ih]
    rfl

theorem readVarInt_eq (width : ℕ) (bytes : Bytes) : readVarInt width bytes =
    (exactGroups 0 bytes).map fun read => (read.1 % 2 ^ width, read.2) := by
  rw [readVarInt, ← readGroups_mod, Nat.zero_mod]

theorem varIntGroups_succ (n len : ℕ) : varIntGroups n (len + 1) = varIntGroups n 1 := by
  induction n using Nat.strong_induction_on generalizing len with
  | _ n ih =>
    unfold varIntGroups
    rw [if_neg (Nat.succ_ne_zero len), if_neg Nat.one_ne_zero]
    split
    · rfl
    rw [ih (n / 0x80 - 1) (by omega), ih (n / 0x80 - 1) (by omega) 1]

theorem varIntGroups_next {value : ℕ} (hvalue : value < 0x80) (n len : ℕ) :
    varIntGroups ((n + 1) * 0x80 + value) len =
      BitVec.ofNat 8 (value + if len = 0 then 0 else 0x80) :: varIntGroups n 1 := by
  have hlow : ((n + 1) * 0x80 + value) % 0x80 = value := by omega
  have hhigh : ((n + 1) * 0x80 + value) / 0x80 - 1 = n := by omega
  rw [varIntGroups, if_neg (by omega : ¬(n + 1) * 0x80 + value ≤ 0x7f), hlow, hhigh,
    varIntGroups_succ]

theorem ofNat_mod_add {chData : Byte} (hhigh : 0x80 ≤ chData.toNat) :
    BitVec.ofNat 8 (chData.toNat % 0x80 + 0x80) = chData := by
  have hlt := chData.isLt
  apply BitVec.eq_of_toNat_eq
  rw [BitVec.toNat_ofNat]
  omega

theorem ofNat_mod {chData : Byte} (hlow : ¬0x80 ≤ chData.toNat) :
    BitVec.ofNat 8 (chData.toNat % 0x80) = chData := by
  apply BitVec.eq_of_toNat_eq
  rw [BitVec.toNat_ofNat]
  omega

theorem exactGroups_front {n value : ℕ} {bytes rest : Bytes}
    (hread : exactGroups (n + 1) bytes = some (value, rest)) :
    (varIntGroups n 1).reverse ++ bytes = writeVarInt value ++ rest := by
  induction bytes generalizing n with
  | nil => cases hread
  | cons chData tail ih =>
    have hgroup : chData.toNat % 0x80 < 0x80 := Nat.mod_lt _ (by decide)
    rw [exactGroups] at hread
    split at hread
    · next hhigh =>
      rw [← ih hread, varIntGroups_next hgroup, if_neg Nat.one_ne_zero, ofNat_mod_add hhigh,
        List.reverse_cons, List.append_assoc, List.singleton_append]
    next hlow =>
    cases hread
    rw [writeVarInt, varIntGroups_next hgroup, if_pos rfl, Nat.add_zero, ofNat_mod hlow,
      List.reverse_cons, List.append_assoc, List.singleton_append]

theorem exactGroups_zero {value : ℕ} {bytes rest : Bytes}
    (hread : exactGroups 0 bytes = some (value, rest)) : bytes = writeVarInt value ++ rest := by
  cases bytes with
  | nil => cases hread
  | cons chData tail =>
    have hgroup : chData.toNat % 0x80 ≤ 0x7f := by omega
    rw [exactGroups, Nat.zero_add] at hread
    split at hread
    · next hhigh =>
      rw [← exactGroups_front hread, varIntGroups, if_pos hgroup, if_neg Nat.one_ne_zero,
        Nat.mod_mod, ofNat_mod_add hhigh, List.reverse_singleton, List.singleton_append]
    next hlow =>
    cases hread
    rw [writeVarInt, varIntGroups, if_pos hgroup, if_pos rfl, Nat.mod_mod, Nat.add_zero,
      ofNat_mod hlow, List.reverse_singleton, List.singleton_append]

theorem writeVarInt_injective {n m : ℕ} (hsame : writeVarInt n = writeVarInt m) : n = m := by
  have hbound : ∀ value, value ≤ n + m → value < 2 ^ (n + m) := fun value hle =>
    Nat.lt_of_le_of_lt hle Nat.lt_two_pow_self
  have hn := readVarInt_writeVarInt (hbound n (Nat.le_add_right n m)) []
  rw [hsame, readVarInt_writeVarInt (hbound m (Nat.le_add_left m n))] at hn
  exact (congrArg Prod.fst (Option.some.inj hn)).symm

theorem eq_writeVarInt_iff {width n : ℕ} {bytes : Bytes}
    (hread : readVarInt width bytes = some (n, [])) :
    bytes = writeVarInt n ↔ exactVarInt bytes < 2 ^ width := by
  rw [readVarInt_eq] at hread
  obtain ⟨⟨value, rest⟩, hexact, hmod⟩ := Option.map_eq_some_iff.mp hread
  cases hmod
  have hbytes := exactGroups_zero hexact
  rw [List.append_nil] at hbytes
  rw [exactVarInt, hexact, Option.map_some, Option.getD_some, hbytes]
  constructor
  · intro hsame
    rw [writeVarInt_injective hsame]
    exact Nat.mod_lt _ (Nat.two_pow_pos width)
  intro hlt
  rw [Nat.mod_eq_of_lt hlt]

theorem getVarInt_writeCompactSize {size : ℕ} (hfits : size < 2 ^ 64) (rest : Bytes) :
    getVarInt (writeCompactSize size ++ rest) = some (size, (writeCompactSize size).length) := by
  rw [writeCompactSize]
  split_ifs with hbyte hshort hlong
  · have hput : putVarInt size = putLE size 1 := if_pos hbyte
    rw [← hput]
    exact getVarInt_putVarInt hfits rest
  · have hfits : size < 256 ^ 2 := by omega
    exact getVarInt_marked rfl (by decide) hfits rest
  · have hfits : size < 256 ^ 4 := by omega
    exact getVarInt_marked rfl (by decide) hfits rest
  exact getVarInt_marked rfl (by decide) hfits rest

theorem readCompactSize_writeCompactSize {maxSize : BitVec 32} {n : ℕ} (hn : n ≤ maxSize.toNat)
    (rest : Bytes) : readCompactSize maxSize (writeCompactSize n ++ rest) = some (n, rest) := by
  have hlt := maxSize.isLt
  rw [readCompactSize, getVarInt_writeCompactSize (by omega)]
  dsimp only
  rw [List.drop_left, if_neg]
  rw [length_writeCompactSize, sizeOfCompactSize]
  split_ifs <;> simp [leastCompactSize] <;> omega

theorem putLE_getLE (bytes : Bytes) : putLE (getLE bytes bytes.length) bytes.length = bytes := by
  induction bytes with
  | nil => rfl
  | cons byte rest ih =>
    have hlt := byte.isLt
    have hbyte : BitVec.ofNat 8 (byte.toNat + 256 * getLE rest rest.length) = byte := by
      apply BitVec.eq_of_toNat_eq
      rw [BitVec.toNat_ofNat]
      omega
    rw [List.length_cons, getLE_cons, putLE, hbyte,
      (by omega : (byte.toNat + 256 * getLE rest rest.length) / 256 = getLE rest rest.length), ih]

theorem eq_writeCompactSize {maxSize : BitVec 32} {n : ℕ} {bytes : Bytes}
    (hread : readCompactSize maxSize bytes = some (n, [])) : bytes = writeCompactSize n := by
  unfold readCompactSize at hread
  cases hvarInt : getVarInt bytes with
  | none =>
    rw [hvarInt] at hread
    cases hread
  | some read =>
    rw [hvarInt] at hread
    dsimp only at hread
    split at hread
    · cases hread
    next hcanonical =>
    rw [Option.some.injEq, Prod.mk.injEq, List.drop_eq_nil_iff] at hread
    obtain ⟨rfl, hall⟩ := hread
    rw [not_or, not_lt] at hcanonical
    cases bytes with
    | nil => cases hvarInt
    | cons byte rest =>
      rw [getVarInt] at hvarInt
      split at hvarInt
      · cases hvarInt
      next hlength =>
      rw [List.length_cons] at hall
      split at hvarInt
      · next hzero =>
        cases hvarInt
        have hbyte : byte.toNat < 253 := by
          by_contra hlarge
          rw [varIntSize, if_neg (by bv_omega)] at hzero
          split_ifs at hzero
        cases List.length_eq_zero_iff.mp (Nat.le_zero.mp (Nat.le_of_succ_le_succ hall))
        rw [writeCompactSize, if_pos hbyte]
        simp [putLE]
      next hnonzero =>
      cases hvarInt
      have hsize : varIntSize byte = rest.length := by omega
      have hfits := getLE_lt rest rest.length
      have hput := putLE_getLE rest
      rw [hsize] at hcanonical hnonzero ⊢
      generalize getLE rest rest.length = value at hcanonical hfits hput ⊢
      unfold varIntSize at hsize
      split_ifs at hsize with hsmall hshort hlong <;> rw [← hsize] at hcanonical hfits hput
      · exact absurd hsize.symm hnonzero
      · have hleast : 253 ≤ value := hcanonical.1
        rw [writeCompactSize, if_neg (by omega), if_pos (by omega), hput, hshort]
      · have hleast : 0x10000 ≤ value := hcanonical.1
        rw [writeCompactSize, if_neg (by omega), if_neg (by omega), if_pos (by omega), hput, hlong]
      have hleast : 0x100000000 ≤ value := hcanonical.1
      rw [writeCompactSize, if_neg (by omega), if_neg (by omega), if_neg (by omega), hput]
      congr 1
      bv_omega

/-- Reading a number back and whether another string reads as it: for groups when nothing is
wrapped, for compact sizes never. -/
theorem integers_one_encoding (maxSize : BitVec 32) :
    (∀ n < 2 ^ 64, (writeVarInt n).length = sizeOfVarInt n ∧
      ∀ rest, readVarInt 64 (writeVarInt n ++ rest) = some (n, rest)) ∧
    (∀ n bytes, readVarInt 64 bytes = some (n, []) →
      (bytes = writeVarInt n ↔ exactVarInt bytes < 2 ^ 64)) ∧
    (∀ n ≤ maxSize.toNat, (writeCompactSize n).length = sizeOfCompactSize n ∧
      ∀ rest, readCompactSize maxSize (writeCompactSize n ++ rest) = some (n, rest)) ∧
    (∀ n bytes, readCompactSize maxSize bytes = some (n, []) → bytes = writeCompactSize n) ∧
    ∀ value < 2 ^ 63, ∀ rest,
      getVarInt (putVarInt value ++ rest) = some (value, (putVarInt value).length) :=
  ⟨fun n hn => ⟨length_writeVarInt n, readVarInt_writeVarInt hn⟩,
    fun _ _ hread => eq_writeVarInt_iff hread,
    fun n hn => ⟨length_writeCompactSize n, readCompactSize_writeCompactSize hn⟩,
    fun _ _ hread => eq_writeCompactSize hread,
    fun _ hvalue rest => getVarInt_putVarInt (hvalue.trans (by decide)) rest⟩

theorem integers_one_encoding_300 : [0x81, 0x2c] = writeVarInt 0x12c :=
  ((integers_one_encoding 0).2.1 0x12c [0x81, 0x2c] (by decide)).mpr (by decide)

/-- Ten groups that encode `2 ^ 64` are read as zero. -/
theorem readVarInt_two_encodings :
    readVarInt 64 [0x80, 0xfe, 0xfe, 0xfe, 0xfe, 0xfe, 0xfe, 0xfe, 0xff, 0x00] = some (0, []) ∧
      readVarInt 64 [0x00] = some (0, []) := by
  decide

end Amberchain
