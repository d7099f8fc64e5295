import Amberchain.Base.Base128
import Amberchain.Storage.Coins
import Mathlib.Data.List.GetD

/-!
# Compressed outputs

`CTxOutCompressor`: an amount loses its last zeros, and six forms of scripts have a shorter
encoding whose first byte stands where other scripts have their size.
-/

namespace Amberchain.Storage

open Transaction

structure Curve where
  isFullyValid : Bytes → Bool
  decompress : Bytes → Option Bytes

def compressedKey (pubkey : Bytes) : Bytes :=
  (0x02 ||| pubkey.getD 64 0 &&& 0x01) :: (pubkey.drop 1).take 32

def Curve.Invertible (curve : Curve) : Prop :=
  ∀ pubkey : Bytes, pubkey.length = 65 → pubkey.getD 0 0 = 0x04 →
    curve.isFullyValid pubkey = true → curve.decompress (compressedKey pubkey) = some pubkey

/-- `s.read`, with what is left. -/
def readBytes (size : ℕ) (bytes : Bytes) : Option (Bytes × Bytes) :=
  if bytes.length < size then none else some (bytes.take size, bytes.drop size)

theorem readBytes_append (data rest : Bytes) :
    readBytes data.length (data ++ rest) = some (data, rest) := by
  unfold readBytes
  rw [if_neg (by rw [List.length_append]; omega), List.take_left, List.drop_left]

/-- The loop of `CompressAmount`: the last zeros, nine of them at most. -/
def stripZeros (n e : ℕ) : ℕ × ℕ :=
  if n % 10 = 0 ∧ e < 9 then stripZeros (n / 10) (e + 1) else (n, e)
termination_by 9 - e

/-- What `CompressAmount` computes, in numbers of any size. -/
def amountCode (n : ℕ) : ℕ :=
  if n = 0 then 0
  else
    let (n, e) := stripZeros n 0
    if e < 9 then 1 + (n / 10 * 9 + n % 10 - 1) * 10 + e else 1 + (n - 1) * 10 + 9

def compressAmount (n : ℕ) : ℕ :=
  amountCode n % 2 ^ 64

/-- The loop of `DecompressAmount`. -/
def timesTen (n : ℕ) : ℕ → ℕ
  | 0 => n
  | e + 1 => timesTen (n * 10 % 2 ^ 64) e

def decompressAmount (x : ℕ) : ℕ :=
  if x = 0 then 0
  else
    let e := (x - 1) % 10
    let x := (x - 1) / 10
    timesTen (if e < 9 then (x / 9 * 10 + x % 9 + 1) % 2 ^ 64 else (x + 1) % 2 ^ 64) e

def isToKeyID (script : Bytes) : Option Bytes :=
  if script.length = 25 ∧ script.getD 0 0 = OP_DUP ∧ script.getD 1 0 = OP_HASH160 ∧
      script.getD 2 0 = 20 ∧ script.getD 23 0 = OP_EQUALVERIFY ∧ script.getD 24 0 = OP_CHECKSIG then
    some ((script.drop 3).take 20)
  else none

def isToScriptID (script : Bytes) : Option Bytes :=
  if script.length = 23 ∧ script.getD 0 0 = OP_HASH160 ∧ script.getD 1 0 = 20 ∧
      script.getD 22 0 = OP_EQUAL then
    some ((script.drop 2).take 20)
  else none

def isToPubKey (curve : Curve) (script : Bytes) : Option Bytes :=
  if script.length = 35 ∧ script.getD 0 0 = 33 ∧ script.getD 34 0 = OP_CHECKSIG ∧
      (script.getD 1 0 = 0x02 ∨ script.getD 1 0 = 0x03) then
    some ((script.drop 1).take 33)
  else if script.length = 67 ∧ script.getD 0 0 = 65 ∧ script.getD 66 0 = OP_CHECKSIG ∧
      script.getD 1 0 = 0x04 then
    if curve.isFullyValid ((script.drop 1).take 65) then some ((script.drop 1).take 65) else none
  else none

def compress (curve : Curve) (script : Bytes) : Option Bytes :=
  match isToKeyID script with
  | some keyID => some (0x00 :: keyID)
  | none =>
    match isToScriptID script with
    | some scriptID => some (0x01 :: scriptID)
    | none =>
      match isToPubKey curve script with
      | some pubkey =>
        if pubkey.getD 0 0 = 0x02 ∨ pubkey.getD 0 0 = 0x03 then
          some (pubkey.getD 0 0 :: (pubkey.drop 1).take 32)
        else if pubkey.getD 0 0 = 0x04 then
          some ((0x04 ||| pubkey.getD 64 0 &&& 0x01) :: (pubkey.drop 1).take 32)
        else none
      | none => none

def nSpecialScripts : ℕ := 6

def getSpecialSize (nSize : ℕ) : ℕ :=
  if nSize = 0 ∨ nSize = 1 then 20
  else if nSize = 2 ∨ nSize = 3 ∨ nSize = 4 ∨ nSize = 5 then 32
  else 0

def decompress (curve : Curve) (nSize : ℕ) (data : Bytes) : Option Bytes :=
  match nSize with
  | 0 => some ([OP_DUP, OP_HASH160, 20] ++ data.take 20 ++ [OP_EQUALVERIFY, OP_CHECKSIG])
  | 1 => some ([OP_HASH160, 20] ++ data.take 20 ++ [OP_EQUAL])
  | 2 => some ([33, 2] ++ data.take 32 ++ [OP_CHECKSIG])
  | 3 => some ([33, 3] ++ data.take 32 ++ [OP_CHECKSIG])
  | 4 => (curve.decompress (2 :: data.take 32)).map fun pubkey => 65 :: pubkey ++ [OP_CHECKSIG]
  | 5 => (curve.decompress (3 :: data.take 32)).map fun pubkey => 65 :: pubkey ++ [OP_CHECKSIG]
  | _ => none

/-- `CScriptCompressor::Serialize` -/
def serializeScript (curve : Curve) (script : Bytes) : Bytes :=
  match compress curve script with
  | some compr => compr
  | none => writeVarInt ((script.length + nSpecialScripts) % 2 ^ 32) ++ script

/-- `CScriptCompressor::Unserialize` of a script that was empty. -/
def unserializeScript (curve : Curve) (bytes : Bytes) : Option (Bytes × Bytes) := do
  let (nSize, rest) ← readVarInt 32 bytes
  if nSize < nSpecialScripts then
    let (vch, rest) ← readBytes (getSpecialSize nSize) rest
    some ((decompress curve nSize vch).getD [], rest)
  else readBytes (nSize - nSpecialScripts) rest

/-- `CTxOutCompressor`, writing. -/
def serializeTxOut (curve : Curve) (txout : TxOut) : Bytes :=
  writeVarInt (compressAmount (txout.value % 2 ^ 64).toNat) ++
    serializeScript curve txout.scriptPubKey

/-- `CTxOutCompressor`, reading. -/
def unserializeTxOut (curve : Curve) (bytes : Bytes) : Option (TxOut × Bytes) := do
  let (nVal, rest) ← readVarInt 64 bytes
  let (scriptPubKey, rest) ← unserializeScript curve rest
  some (⟨(BitVec.ofNat 64 (decompressAmount nVal)).toInt, scriptPubKey⟩, rest)

end Amberchain.Storage

/-!
# Compressed outputs are decompressed

Amounts up to `10^18` and scripts shorter than `2^32 - 6` bytes are read back as they were.
-/

namespace Amberchain.Storage

open Transaction

theorem stripZeros_spec {n : ℕ} (hpos : 0 < n) {e : ℕ} (he : e ≤ 9) :
    ∃ m k, stripZeros n e = (m, k) ∧ n * 10 ^ e = m * 10 ^ k ∧ k ≤ 9 ∧ 0 < m ∧
      (k < 9 → m % 10 ≠ 0) := by
  induction n, e using stripZeros.induct with
  | case1 n e hloop ih =>
    obtain ⟨m, k, hstrip, hvalue, hrest⟩ := ih (by omega) (by omega)
    refine ⟨m, k, ?_, ?_, hrest⟩
    · rw [stripZeros, if_pos hloop, hstrip]
    have htens : n = n / 10 * 10 := by omega
    rw [← hvalue, pow_succ, ← mul_assoc, mul_right_comm, ← htens]
  | case2 n e hstop =>
    refine ⟨n, e, ?_, rfl, he, hpos, fun hlt hzero => hstop ⟨hzero, hlt⟩⟩
    rw [stripZeros, if_neg hstop]

theorem timesTen_eq {n : ℕ} (e : ℕ) (hfits : n * 10 ^ e < 2 ^ 64) : timesTen n e = n * 10 ^ e := by
  induction e generalizing n with
  | zero => rw [timesTen, pow_zero, mul_one]
  | succ e ih =>
    have hassoc : n * 10 ^ (e + 1) = n * 10 * 10 ^ e := by ring
    have hle : n * 10 ≤ n * 10 * 10 ^ e := Nat.le_mul_of_pos_right _ (Nat.pow_pos (Nat.succ_pos 9))
    rw [hassoc] at hfits ⊢
    rw [timesTen, Nat.mod_eq_of_lt (by omega), ih hfits]

theorem amountCode_digits {n : ℕ} (hpos : 0 < n) (hmax : n ≤ 10 ^ 18) :
    ∃ m e, n = m * 10 ^ e ∧ 0 < m ∧ e ≤ 9 ∧ m ≤ n ∧
      (e < 9 ∧ m % 10 ≠ 0 ∧ amountCode n = 1 + (m / 10 * 9 + m % 10 - 1) * 10 + e ∨
        e = 9 ∧ amountCode n = 1 + (m - 1) * 10 + 9) := by
  obtain ⟨m, e, hstrip, hvalue, he, hm, hdigit⟩ := @stripZeros_spec n hpos 0 (by omega)
  rw [pow_zero, mul_one] at hvalue
  have hle : m ≤ n := hvalue ▸ Nat.le_mul_of_pos_right _ (Nat.pow_pos (Nat.succ_pos 9))
  refine ⟨m, e, hvalue, hm, he, hle, ?_⟩
  unfold amountCode
  rw [if_neg (by omega), hstrip]
  by_cases hlt : e < 9
  · exact .inl ⟨hlt, hdigit hlt, if_pos hlt⟩
  exact .inr ⟨by omega, if_neg hlt⟩

/-- `CompressAmount` does not leave 64 bits. -/
theorem amountCode_lt {n : ℕ} (hmax : n ≤ 10 ^ 18) : amountCode n < 2 ^ 64 := by
  rcases Nat.eq_zero_or_pos n with rfl | hpos
  · decide
  obtain ⟨m, e, _, _, _, hle, ⟨_, _, hcode⟩ | ⟨_, hcode⟩⟩ := amountCode_digits hpos hmax
  · omega
  omega

theorem compressAmount_eq {n : ℕ} (hmax : n ≤ 10 ^ 18) : compressAmount n = amountCode n :=
  Nat.mod_eq_of_lt (amountCode_lt hmax)

theorem decompressAmount_compressAmount {n : ℕ} (hmax : n ≤ 10 ^ 18) :
    decompressAmount (compressAmount n) = n := by
  rw [compressAmount_eq hmax]
  rcases Nat.eq_zero_or_pos n with rfl | hpos
  · rfl
  obtain ⟨m, e, hvalue, hm, -, hle, hcases⟩ := amountCode_digits hpos hmax
  have htimes : timesTen m e = n := by
    rw [timesTen_eq e (by rw [← hvalue]; omega), ← hvalue]
  unfold decompressAmount
  rcases hcases with ⟨hlt, hdigit, hcode⟩ | ⟨heq, hcode⟩
  · have hlast : (amountCode n - 1) % 10 = e := by omega
    have hfront : (amountCode n - 1) / 10 = m / 10 * 9 + m % 10 - 1 := by omega
    have hdigits : (m / 10 * 9 + m % 10 - 1) / 9 * 10 + (m / 10 * 9 + m % 10 - 1) % 9 + 1 = m := by
      omega
    dsimp only
    rw [if_neg (by omega), hlast, hfront, if_pos hlt, hdigits, Nat.mod_eq_of_lt (by omega), htimes]
  have hlast : (amountCode n - 1) % 10 = e := by omega
  have hfront : (amountCode n - 1) / 10 + 1 = m := by omega
  dsimp only
  rw [if_neg (by omega), hlast, hfront, if_neg (by omega), Nat.mod_eq_of_lt (by omega), htimes]

theorem eq_getD_cons_drop {bytes : Bytes} {i : ℕ} (hlt : i < bytes.length) :
    bytes.drop i = bytes.getD i 0 :: bytes.drop (i + 1) := by
  rw [List.drop_eq_getElem_cons hlt, List.getD_eq_getElem _ _ hlt]

theorem take_succ_getD {bytes : Bytes} {i : ℕ} (hlt : i < bytes.length) :
    bytes.take (i + 1) = bytes.take i ++ [bytes.getD i 0] := by
  rw [List.take_succ_eq_append_getElem hlt, List.getD_eq_getElem _ _ hlt]

theorem eq_of_middle (script : Bytes) (first size : ℕ) :
    script = script.take first ++ (script.drop first).take size ++ script.drop (first + size) := by
  rw [← List.drop_drop, List.append_assoc, List.take_append_drop, List.take_append_drop]

theorem length_middle {script : Bytes} {first size : ℕ} (hlength : first + size ≤ script.length) :
    ((script.drop first).take size).length = size := by
  rw [List.length_take, List.length_drop]
  omega

structure Special (curve : Curve) (script compr : Bytes) (header : Byte) (data : Bytes) : Prop where
  compr_eq : compr = header :: data
  header_lt : header.toNat < nSpecialScripts
  length_data : data.length = getSpecialSize header.toNat
  decompress_eq : decompress curve header.toNat data = some script

variable {curve : Curve}

theorem special_keyID {script keyID : Bytes} (hkey : isToKeyID script = some keyID) :
    Special curve script (0x00 :: keyID) 0x00 keyID := by
  unfold isToKeyID at hkey
  split at hkey
  next hform =>
    cases hkey
    obtain ⟨hlength, h0, h1, h2, h23, h24⟩ := hform
    have hdata : ((script.drop 3).take 20).length = 20 := length_middle (by omega)
    have hstart : script.take 3 = [OP_DUP, OP_HASH160, 20] := by
      rw [take_succ_getD (by omega), take_succ_getD (by omega), take_succ_getD (by omega), h0, h1, h2]
      rfl
    have hend : script.drop 23 = [OP_EQUALVERIFY, OP_CHECKSIG] := by
      rw [eq_getD_cons_drop (by omega), eq_getD_cons_drop (by omega), h23, h24,
        List.drop_of_length_le (by omega)]
    refine ⟨rfl, by decide, hdata, ?_⟩
    change some ([OP_DUP, OP_HASH160, 20] ++ ((script.drop 3).take 20).take 20 ++
      [OP_EQUALVERIFY, OP_CHECKSIG]) = some script
    rw [List.take_of_length_le hdata.le, ← hstart, ← hend, ← eq_of_middle]
  next => cases hkey

theorem special_scriptID {script scriptID : Bytes} (hscript : isToScriptID script = some scriptID) :
    Special curve script (0x01 :: scriptID) 0x01 scriptID := by
  unfold isToScriptID at hscript
  split at hscript
  next hform =>
    cases hscript
    obtain ⟨hlength, h0, h1, h22⟩ := hform
    have hdata : ((script.drop 2).take 20).length = 20 := length_middle (by omega)
    have hstart : script.take 2 = [OP_HASH160, 20] := by
      rw [take_succ_getD (by omega), take_succ_getD (by omega), h0, h1]
      rfl
    have hend : script.drop 22 = [OP_EQUAL] := by
      rw [eq_getD_cons_drop (by omega), h22, List.drop_of_length_le (by omega)]
    refine ⟨rfl, by decide, hdata, ?_⟩
    change some ([OP_HASH160, 20] ++ ((script.drop 2).take 20).take 20 ++ [OP_EQUAL]) = some script
    rw [List.take_of_length_le hdata.le, ← hstart, ← hend, ← eq_of_middle]
  next => cases hscript

theorem special_compressed {script : Bytes} (hlength : script.length = 35)
    (hpush : script.getD 0 0 = 33) (hcheck : script.getD 34 0 = OP_CHECKSIG)
    (hheader : script.getD 1 0 = 0x02 ∨ script.getD 1 0 = 0x03) :
    Special curve script (script.getD 1 0 :: (script.drop 2).take 32) (script.getD 1 0)
      ((script.drop 2).take 32) := by
  have hdata : ((script.drop 2).take 32).length = 32 := length_middle (by omega)
  have hstart : script.take 2 = [33, script.getD 1 0] := by
    rw [take_succ_getD (by omega), take_succ_getD (by omega), hpush]
    rfl
  have hend : script.drop 34 = [OP_CHECKSIG] := by
    rw [eq_getD_cons_drop (by omega), hcheck, List.drop_of_length_le (by omega)]
  have hform : [33, script.getD 1 0] ++ ((script.drop 2).take 32).take 32 ++ [OP_CHECKSIG] =
      script := by
    rw [List.take_of_length_le hdata.le, ← hstart, ← hend, ← eq_of_middle]
  rcases hheader with hheader | hheader
  · rw [hheader] at hform ⊢
    exact ⟨rfl, by decide, hdata, congrArg some hform⟩
  rw [hheader] at hform ⊢
  exact ⟨rfl, by decide, hdata, congrArg some hform⟩

/-- The two forms with a key of both coordinates. -/
theorem special_uncompressed (hcurve : curve.Invertible) {script pubkey : Bytes}
    (hlength : pubkey.length = 65) (hscript : script = 65 :: pubkey ++ [OP_CHECKSIG])
    (hheader : pubkey.getD 0 0 = 0x04) (hvalid : curve.isFullyValid pubkey = true) :
    Special curve script ((0x04 ||| pubkey.getD 64 0 &&& 0x01) :: (pubkey.drop 1).take 32)
      (0x04 ||| pubkey.getD 64 0 &&& 0x01) ((pubkey.drop 1).take 32) := by
  have hdata : ((pubkey.drop 1).take 32).length = 32 := length_middle (by omega)
  have hpoint := hcurve pubkey hlength hheader hvalid
  unfold compressedKey at hpoint
  have hparity : ∀ last : Byte, last &&& 0x01 = 0 ∨ last &&& 0x01 = 1 := by decide +kernel
  rcases hparity (pubkey.getD 64 0) with hlast | hlast
  · rw [hlast] at hpoint ⊢
    refine ⟨rfl, by decide, hdata, ?_⟩
    change (curve.decompress (2 :: ((pubkey.drop 1).take 32).take 32)).map _ = _
    rw [List.take_of_length_le hdata.le]
    exact (congrArg _ hpoint).trans (congrArg some hscript.symm)
  rw [hlast] at hpoint ⊢
  refine ⟨rfl, by decide, hdata, ?_⟩
  change (curve.decompress (3 :: ((pubkey.drop 1).take 32).take 32)).map _ = _
  rw [List.take_of_length_le hdata.le]
  exact (congrArg _ hpoint).trans (congrArg some hscript.symm)

/-- What is compressed is decompressed to the same script. -/
theorem special_of_compress (hcurve : curve.Invertible) {script compr : Bytes}
    (hcompress : compress curve script = some compr) :
    ∃ header data, Special curve script compr header data := by
  unfold compress at hcompress
  split at hcompress
  next keyID hkey =>
    cases hcompress
    exact ⟨_, _, special_keyID hkey⟩
  split at hcompress
  next scriptID hscript =>
    cases hcompress
    exact ⟨_, _, special_scriptID hscript⟩
  split at hcompress
  next pubkey hpubkey =>
    unfold isToPubKey at hpubkey
    split at hpubkey
    next hform =>
      obtain ⟨hlength, hpush, hcheck, hheader⟩ := hform
      have hfirst : ((script.drop 1).take 33).getD 0 0 = script.getD 1 0 := by
        rw [eq_getD_cons_drop (by omega)]
        rfl
      have hrest : (((script.drop 1).take 33).drop 1).take 32 = (script.drop 2).take 32 := by
        rw [List.drop_take, List.drop_drop, List.take_take]
        rfl
      cases hpubkey
      rw [hfirst, if_pos hheader, hrest] at hcompress
      cases hcompress
      exact ⟨_, _, special_compressed hlength hpush hcheck hheader⟩
    split at hpubkey
    next hform =>
      obtain ⟨hlength, hpush, hcheck, hheader⟩ := hform
      split at hpubkey
      next hvalid =>
        cases hpubkey
        have hsize : ((script.drop 1).take 65).length = 65 := length_middle (by omega)
        have hfirst : ((script.drop 1).take 65).getD 0 0 = 0x04 := by
          rw [eq_getD_cons_drop (by omega), hheader]
          rfl
        have hwhole : script = 65 :: (script.drop 1).take 65 ++ [OP_CHECKSIG] := by
          have hstart : script.take 1 = [65] := by
            rw [take_succ_getD (by omega), hpush]
            rfl
          have hend : script.drop 66 = [OP_CHECKSIG] := by
            rw [eq_getD_cons_drop (by omega), hcheck, List.drop_of_length_le (by omega)]
          have hmiddle := eq_of_middle script 1 65
          rw [hstart, hend] at hmiddle
          exact hmiddle
        rw [hfirst] at hcompress
        cases hcompress
        exact ⟨_, _, special_uncompressed hcurve hsize hwhole hfirst hvalid⟩
      next => cases hpubkey
    next => cases hpubkey
  next => cases hcompress

/-- A script is read back, unless its size does not fit with the special ones. -/
theorem unserializeScript_serializeScript (hcurve : curve.Invertible) {script : Bytes}
    (hlength : script.length + nSpecialScripts < 2 ^ 32) (rest : Bytes) :
    unserializeScript curve (serializeScript curve script ++ rest) = some (script, rest) := by
  unfold unserializeScript serializeScript
  cases hcompress : compress curve script with
  | some compr =>
    obtain ⟨header, data, hspecial⟩ := special_of_compress hcurve hcompress
    have hheader := hspecial.header_lt
    have hsmall : header.toNat < 0x80 := Nat.lt_trans hheader (by decide)
    have hread : readVarInt 32 (header :: (data ++ rest)) = some (header.toNat, data ++ rest) := by
      have hlow := @readGroups_low 32 0 header.toNat hsmall (data ++ rest)
      rw [BitVec.ofNat_toNat, Nat.zero_add, Nat.mod_eq_of_lt (by omega)] at hlow
      exact hlow
    dsimp only
    rw [hspecial.compr_eq, List.cons_append, hread, Option.bind_eq_bind, Option.bind_some]
    rw [if_pos hheader, ← hspecial.length_data, readBytes_append, Option.bind_eq_bind,
      Option.bind_some, hspecial.decompress_eq]
    rfl
  | none =>
    dsimp only
    rw [Nat.mod_eq_of_lt hlength, List.append_assoc, readVarInt_writeVarInt hlength,
      Option.bind_eq_bind, Option.bind_some]
    rw [if_neg (Nat.not_lt.mpr (Nat.le_add_left _ _)), Nat.add_sub_cancel, readBytes_append]

/-- An output with an amount and a script in range is read back. -/
theorem unserializeTxOut_serializeTxOut (hcurve : curve.Invertible) {out : TxOut}
    (hvalue : 0 ≤ out.value) (hmax : out.value ≤ 10 ^ 18)
    (hlength : out.scriptPubKey.length + nSpecialScripts < 2 ^ 32) (rest : Bytes) :
    unserializeTxOut curve (serializeTxOut curve out ++ rest) = some (out, rest) := by
  obtain ⟨n, hn⟩ := Int.eq_ofNat_of_zero_le hvalue
  have hle : n ≤ 10 ^ 18 := by omega
  have hcast : (out.value % 2 ^ 64).toNat = n := by
    rw [hn, Int.emod_eq_of_lt (by omega) (by omega), Int.toNat_natCast]
  have hsigned : (BitVec.ofNat 64 n).toInt = out.value := by
    have hnat : (BitVec.ofNat 64 n).toNat = n := by
      rw [BitVec.toNat_ofNat, Nat.mod_eq_of_lt (by omega)]
    rw [BitVec.toInt_eq_toNat_of_lt (by omega), hnat, hn]
  have hcode : compressAmount n < 2 ^ 64 := Nat.mod_lt _ (by decide)
  unfold unserializeTxOut serializeTxOut
  rw [hcast, List.append_assoc, readVarInt_writeVarInt hcode, Option.bind_eq_bind, Option.bind_some]
  dsimp only
  rw [unserializeScript_serializeScript hcurve hlength, Option.bind_eq_bind, Option.bind_some,
    decompressAmount_compressAmount hle, hsigned]

end Amberchain.Storage
