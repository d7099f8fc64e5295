import Amberchain.ParamSet.Building
import Mathlib.Data.List.Induction

/-!
# The layout of a parameter set

A list of parameters and values, laid out one behind the other, is a parameter set.  A
parameter that is written behind the data of such a set makes it the layout of a longer list,
or leaves the buffer.
-/

namespace Amberchain.ParamSet

open Memory

/-- A parameter by its place in the table, and its value. -/
abbrev Entry := ℕ × Bytes

/-- The name of the parameter at a place of the table. -/
def keyAt (i : ℕ) : Bytes :=
  (multichainParamArray[i]?.map OneMultichainParam.key).getD []

def encodeEntry (entry : Entry) : Bytes :=
  keyAt entry.1 ++ (0 :: (putLE entry.2.length paramSizeBytes ++ entry.2))

def encode (entries : List Entry) : Bytes :=
  entries.flatMap encodeEntry

def valueOffset (offset : ℕ) (entry : Entry) : ℕ :=
  offset + ((keyAt entry.1).length + 1) + paramSizeBytes

def place : List Entry → ℕ → List (ℤ × ℤ) → List (ℤ × ℤ)
  | [], _, coord => coord
  | entry :: rest, offset, coord => place rest (offset + (encodeEntry entry).length)
      (coord.set entry.1 (valueOffset offset entry, entry.2.length))

/-- The bytes that `Init` allocates. -/
def allocated : ℕ := mcNewSize maxSize

def layOut (entries : List Entry) : MultichainParams where
  data := encode entries ++ List.replicate (allocated - (encode entries).length) 0
  coord := place entries 0 (List.replicate count (-1, 0))
  size := (encode entries).length

theorem allocated_eq : allocated = 3584 := by
  decide +kernel

theorem init_eq_layOut : MultichainParams.init = layOut [] :=
  rfl

theorem length_encodeEntry (entry : Entry) : (encodeEntry entry).length
      = (keyAt entry.1).length + 1 + paramSizeBytes + entry.2.length := by
  rw [encodeEntry, List.length_append, List.length_cons, List.length_append, length_putLE]
  omega

theorem encode_concat (entries : List Entry) (entry : Entry) :
    encode (entries ++ [entry]) = encode entries ++ encodeEntry entry := by
  rw [encode, List.flatMap_append, List.flatMap_singleton]
  rfl

theorem length_encode_concat (entries : List Entry) (entry : Entry) :
    (encode (entries ++ [entry])).length
      = (encode entries).length + ((keyAt entry.1).length + 1 + paramSizeBytes
        + entry.2.length) := by
  rw [encode_concat, List.length_append, length_encodeEntry]

theorem length_encode_append (entries more : List Entry) :
    (encode (entries ++ more)).length = (encode entries).length + (encode more).length := by
  rw [encode, List.flatMap_append, List.length_append]
  rfl

theorem length_layOut_data {entries : List Entry}
    (hfits : (encode entries).length ≤ allocated) : (layOut entries).data.length = allocated := by
  rw [layOut, List.length_append, List.length_replicate]
  omega

theorem place_concat (entries : List Entry) (entry : Entry) (offset : ℕ) (coord : List (ℤ × ℤ)) :
    place (entries ++ [entry]) offset coord
      = (place entries offset coord).set entry.1
          (valueOffset (offset + (encode entries).length) entry, entry.2.length) := by
  induction entries generalizing offset coord with
  | nil => rfl
  | cons first rest ih =>
    have hlength : (encode (first :: rest)).length
        = (encodeEntry first).length + (encode rest).length := by
      rw [encode, List.flatMap_cons, List.length_append]
      rfl
    rw [List.cons_append, place, ih, place, hlength, Nat.add_assoc]

theorem length_place (entries : List Entry) (offset : ℕ) (coord : List (ℤ × ℤ)) :
    (place entries offset coord).length = coord.length := by
  induction entries generalizing offset coord with
  | nil => rfl
  | cons first rest ih => rw [place, ih, List.length_set]

theorem layOut_concat_coord (entries : List Entry) (entry : Entry) :
    (layOut (entries ++ [entry])).coord
      = (layOut entries).coord.set entry.1
          (valueOffset (encode entries).length entry, entry.2.length) := by
  rw [layOut, place_concat, Nat.zero_add]
  rfl

theorem length_layOut_coord (entries : List Entry) : (layOut entries).coord.length = count := by
  rw [layOut, length_place, List.length_replicate]

theorem coordAt_layOut_concat (entries : List Entry) (entry : Entry) (i : ℕ) :
    (layOut (entries ++ [entry])).coordAt i
      = if i = entry.1 ∧ i < count then
          ((valueOffset (encode entries).length entry : ℤ), (entry.2.length : ℤ))
        else (layOut entries).coordAt i := by
  rw [MultichainParams.coordAt, MultichainParams.coordAt, layOut_concat_coord,
    List.getD_eq_getElem?_getD, List.getD_eq_getElem?_getD]
  by_cases hsame : i = entry.1
  · subst hsame
    by_cases hi : entry.1 < count
    · rw [if_pos ⟨rfl, hi⟩, List.getElem?_set_self (by rwa [length_layOut_coord])]
      rfl
    rw [if_neg fun h => hi h.2, List.set_eq_of_length_le]
    rw [length_layOut_coord]
    exact Nat.le_of_not_lt hi
  rw [if_neg fun h => hsame h.1, List.getElem?_set_ne (Ne.symm hsame)]

theorem coordAt_layOut_nil (i : ℕ) : (layOut []).coordAt i = (-1, 0) := by
  change ((List.replicate count ((-1 : ℤ), (0 : ℤ)))[i]?).getD (-1, 0) = (-1, 0)
  rw [List.getElem?_replicate]
  split
  · rfl
  rfl

/-- A parameter is set exactly when it is one of the entries. -/
theorem coordAt_layOut_neg_iff {entries : List Entry} {i : ℕ} (hi : i < count) :
    ((layOut entries).coordAt i).1 < 0 ↔ i ∉ entries.map Prod.fst := by
  induction entries using List.reverseRecOn with
  | nil =>
    rw [coordAt_layOut_nil]
    simp
  | append_singleton entries entry ih =>
    rw [coordAt_layOut_concat, List.map_append, List.mem_append]
    by_cases hsame : i = entry.1
    · rw [if_pos ⟨hsame, hi⟩]
      simp only [List.map_cons, List.map_nil, List.mem_singleton, hsame]
      have hoffset : ¬ ((valueOffset (encode entries).length entry : ℤ) < 0) := by omega
      simp [hoffset]
    rw [if_neg fun h => hsame h.1, ih]
    simp [hsame]

/-- All values lie in the data. -/
theorem coordAt_layOut_inside (entries : List Entry) (i : ℕ)
    (hset : 0 ≤ ((layOut entries).coordAt i).1) : 0 ≤ ((layOut entries).coordAt i).2 ∧
      ((layOut entries).coordAt i).1 + ((layOut entries).coordAt i).2 ≤ (layOut entries).size := by
  induction entries using List.reverseRecOn with
  | nil =>
    rw [coordAt_layOut_nil] at hset
    omega
  | append_singleton entries entry ih =>
    have hsize : (layOut (entries ++ [entry])).size
        = (encode entries).length + ((keyAt entry.1).length + 1 + paramSizeBytes
          + entry.2.length : ℕ) := by
      rw [layOut, length_encode_concat, Nat.cast_add]
    have hsize' : (layOut entries).size = (encode entries).length := rfl
    rw [coordAt_layOut_concat] at hset ⊢
    split at hset
    next hsame =>
      rw [if_pos hsame]
      rw [valueOffset]
      omega
    next hother =>
      rw [if_neg hother]
      omega

theorem putLE_mod (value size : ℕ) : putLE (value % 256 ^ size) size = putLE value size := by
  induction size generalizing value with
  | zero => rfl
  | succ size ih =>
    have hbyte : BitVec.ofNat 8 (value % 256 ^ (size + 1)) = BitVec.ofNat 8 value := by
      apply BitVec.eq_of_toNat_eq
      rw [Nat.pow_succ']
      exact Nat.mod_mul_right_mod value 256 (256 ^ size)
    have hrest : value % 256 ^ (size + 1) / 256 = value / 256 % 256 ^ size := by
      rw [Nat.pow_succ', Nat.mod_mul_right_div_self]
    rw [putLE, putLE, hbyte, hrest, ih]

theorem putLE_size (size : ℕ) :
    putLE (BitVec.ofInt 16 size).toNat paramSizeBytes = putLE size paramSizeBytes := by
  have hmod : (BitVec.ofInt 16 (size : ℤ)).toNat = size % 256 ^ paramSizeBytes := by
    rfl
  rw [hmod, putLE_mod]

section Append

variable {entries : List Entry} {i : ℕ} {param : OneMultichainParam} {value : Bytes}

theorem keyAt_of_get (hget : multichainParamArray[i]? = some param) : keyAt i = param.key := by
  rw [keyAt, hget]
  rfl

theorem encode_concat_eq (entries : List Entry) (hget : multichainParamArray[i]? = some param)
    (rest : Bytes) : encode (entries ++ [(i, value)]) ++ rest
      = encode entries ++ ((param.key ++ [0])
        ++ (putLE value.length paramSizeBytes ++ (value ++ rest))) := by
  rw [encode_concat, encodeEntry, keyAt_of_get hget]
  simp only [List.append_assoc, List.cons_append, List.nil_append]

/-- The three accesses write the name, the size and the value into zeros. -/
theorem append_zeros (params : MultichainParams) {start rest : Bytes}
    (hdata : params.data = start ++ (List.replicate (param.key.length + 1) 0
      ++ (List.replicate paramSizeBytes 0 ++ (List.replicate value.length 0 ++ rest))))
    (hsize : params.size = start.length) : params.append i param.key value.length value
      = .ok { data := start ++ ((param.key ++ [0])
                ++ (putLE value.length paramSizeBytes ++ (value ++ rest)))
              coord := params.coord.set i
                (params.size + (param.key.length + 1) + paramSizeBytes, value.length)
              size := params.size + (param.key.length + 1) + paramSizeBytes + value.length } := by
  have hname : write params.data params.size (param.key ++ [0])
      = some (start ++ ((param.key ++ [0])
        ++ (List.replicate paramSizeBytes 0 ++ (List.replicate value.length 0 ++ rest)))) := by
    rw [hdata]
    apply write_over hsize
    rw [List.length_append, List.length_replicate]
    rfl
  have hvalue : (if (0 : ℤ) < value.length then
        access (write (start ++ ((param.key ++ [0])
          ++ (List.replicate paramSizeBytes 0 ++ (List.replicate value.length 0 ++ rest))))
          (params.size + (param.key.length + 1) + paramSizeBytes) value)
      else .ok (start ++ ((param.key ++ [0])
        ++ (List.replicate paramSizeBytes 0 ++ (List.replicate value.length 0 ++ rest)))))
      = .ok (start ++ ((param.key ++ [0])
        ++ (List.replicate paramSizeBytes 0 ++ (value ++ rest)))) := by
    split
    · have hoffset : params.size + (param.key.length + 1) + paramSizeBytes
          = ((start ++ (param.key ++ [0]) ++ List.replicate paramSizeBytes 0).length : ℤ) := by
        simp only [hsize, List.length_append, List.length_replicate, List.length_singleton]
        push_cast
        ring
      have hzeros : value.length = (List.replicate value.length (0 : Byte)).length := by
        rw [List.length_replicate]
      have hwrite := @write_over _ _ _ _ rest _ hoffset hzeros
      simp only [List.append_assoc] at hwrite ⊢
      rw [hwrite]
      rfl
    next hempty =>
      have hnil : value = [] := List.eq_nil_of_length_eq_zero (by omega)
      subst hnil
      rfl
  have hwidth : write (start ++ ((param.key ++ [0])
        ++ (List.replicate paramSizeBytes 0 ++ (value ++ rest))))
      (params.size + (param.key.length + 1)) (putLE value.length paramSizeBytes)
      = some (start ++ ((param.key ++ [0])
        ++ (putLE value.length paramSizeBytes ++ (value ++ rest)))) := by
    have hoffset : params.size + (param.key.length + 1)
        = ((start ++ (param.key ++ [0])).length : ℤ) := by
      simp only [hsize, List.length_append, List.length_singleton]
      push_cast
      ring
    have hzeros : (putLE value.length paramSizeBytes).length
        = (List.replicate paramSizeBytes (0 : Byte)).length := by
      rw [List.length_replicate, length_putLE]
    have hwrite := @write_over _ _ _ _ (value ++ rest) _ hoffset hzeros
    simpa only [List.append_assoc] using hwrite
  rw [MultichainParams.append, hname, putLE_size]
  simp only [access, bind, Except.bind] at hvalue ⊢
  rw [hvalue]
  dsimp only
  rw [hwidth]

/-- A parameter written behind the data is the last entry. -/
theorem append_layOut (hget : multichainParamArray[i]? = some param)
    (hfits : (encode (entries ++ [(i, value)])).length ≤ allocated) :
    (layOut entries).append i param.key value.length value
      = .ok (layOut (entries ++ [(i, value)])) := by
  have hkey : keyAt i = param.key := keyAt_of_get hget
  have hlength := length_encode_concat entries (i, value)
  rw [hkey] at hlength
  dsimp only at hlength
  have hzeros : allocated - (encode entries).length
      = (param.key.length + 1) + (paramSizeBytes + (value.length
        + (allocated - (encode (entries ++ [(i, value)])).length))) := by
    omega
  have hdata : (layOut entries).data
      = encode entries ++ (List.replicate (param.key.length + 1) 0
        ++ (List.replicate paramSizeBytes 0 ++ (List.replicate value.length 0
          ++ List.replicate (allocated - (encode (entries ++ [(i, value)])).length) 0))) := by
    rw [layOut, hzeros]
    rw [List.replicate_add (param.key.length + 1), List.replicate_add paramSizeBytes,
      List.replicate_add value.length]
  have hsize : (layOut entries).size = (encode entries).length := rfl
  have hcoord : (layOut (entries ++ [(i, value)])).coord
      = (layOut entries).coord.set i
        ((layOut entries).size + (param.key.length + 1) + paramSizeBytes, value.length) := by
    rw [layOut_concat_coord, valueOffset, hkey]
    rfl
  have hend : (layOut (entries ++ [(i, value)])).size
      = (layOut entries).size + (param.key.length + 1) + paramSizeBytes + value.length := by
    rw [hsize, layOut, hlength]
    push_cast
    ring
  rw [append_zeros (layOut entries) hdata hsize, ← encode_concat_eq entries hget, ← hcoord, ← hend]
  rfl

/-- A parameter for which there is no room is written behind the end of the buffer. -/
theorem append_layOut_eq_undefined (hget : multichainParamArray[i]? = some param)
    (hbefore : (encode entries).length ≤ allocated)
    (hover : allocated < (encode (entries ++ [(i, value)])).length) :
    (layOut entries).append i param.key value.length value = .error .undefined := by
  have hlength := length_encode_concat entries (i, value)
  rw [keyAt_of_get hget] at hlength
  dsimp only at hlength
  have hsize : (layOut entries).size = (encode entries).length := rfl
  have hdata : (layOut entries).data.length = allocated := length_layOut_data hbefore
  rw [MultichainParams.append]
  cases hname : write (layOut entries).data (layOut entries).size (param.key ++ [0]) with
  | none => rfl
  | some named =>
    have hnamed : named.length = allocated := by
      rw [length_write hname, hdata]
    simp only [access, bind, Except.bind]
    by_cases hempty : (0 : ℤ) < value.length
    · have hnone : write named ((layOut entries).size + (param.key.length + 1) + paramSizeBytes)
          value = none := by
        apply write_eq_none
        omega
      rw [if_pos hempty, hnone]
    have hnone : write named ((layOut entries).size + (param.key.length + 1))
        (putLE (BitVec.ofInt 16 value.length).toNat paramSizeBytes) = none := by
      apply write_eq_none
      rw [length_putLE]
      omega
    rw [if_neg hempty]
    dsimp only
    rw [hnone]

end Append

end Amberchain.ParamSet
