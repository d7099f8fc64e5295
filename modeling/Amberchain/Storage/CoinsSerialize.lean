import Amberchain.Storage.Compressor

/-!
# Coins as bytes

`CCoins::Serialize`, `Unserialize` and `GetSerializeSize`: the version, a code with the
coinbase flag, the first two outputs and the number of mask bytes that are not zero, the
mask of the other outputs, the outputs that are not spent, and the height.
-/

namespace Amberchain.Storage.Coins

open Transaction

variable (curve : Curve) (coins : Coins)

def maskByteUsed (b : ℕ) : Bool :=
  (List.range 8).any fun i => coins.isAvailable (2 + b * 8 + i)

def maskBytes : ℕ :=
  (coins.vout.length - 2 + 7) / 8

/-- `CalcMaskSize`: `nBytes` and `nNonzeroBytes`. -/
def calcMaskSize : ℕ × ℕ :=
  (List.range coins.maskBytes).foldl
    (fun (nLastUsedByte, nNonzeroBytes) b =>
      if coins.maskByteUsed b then (b + 1, nNonzeroBytes + 1) else (nLastUsedByte, nNonzeroBytes))
    (0, 0)

/-- `chAvail` of a mask byte. -/
def chAvail (b : ℕ) : Byte :=
  (List.range 8).foldl
    (fun chAvail i =>
      if coins.isAvailable (2 + b * 8 + i) then chAvail ||| BitVec.twoPow 8 i else chAvail) 0

def availBits (chAvail : Byte) : List Bool :=
  (List.range 8).map fun p => chAvail &&& BitVec.twoPow 8 p ≠ 0

/-- `fFirst || fSecond || nMaskCode` -/
def hasCode : Bool :=
  coins.isAvailable 0 || coins.isAvailable 1 || coins.calcMaskSize.2 ≠ 0

/-- `nCode` -/
def headerCode : ℕ :=
  (8 * (coins.calcMaskSize.2 - if coins.isAvailable 0 || coins.isAvailable 1 then 0 else 1) +
    (if coins.coinBase then 1 else 0) + (if coins.isAvailable 0 then 2 else 0) +
    if coins.isAvailable 1 then 4 else 0) % 2 ^ 32

def unspent : List TxOut :=
  coins.vout.filter fun out => !isNull out

/-- `GetSerializeSize`; coins with no output fail its assertion. -/
def getSerializeSize : Option ℕ :=
  if coins.hasCode then
    some ((sizeOfVarInt32 coins.version + sizeOfVarInt coins.headerCode + coins.calcMaskSize.1 +
      (coins.unspent.map fun out => (serializeTxOut curve out).length).sum +
      sizeOfVarInt32 coins.height) % 2 ^ 32)
  else none

def serialize : Option Bytes :=
  if coins.hasCode then
    some (writeVarInt32 coins.version ++ writeVarInt coins.headerCode ++
      (List.range coins.calcMaskSize.1).map coins.chAvail ++
      coins.unspent.flatMap (serializeTxOut curve) ++ writeVarInt32 coins.height)
  else none

def readMask : ℕ → Bytes → Option (List Bool × Bytes)
  | 0, bytes => some ([], bytes)
  | _ + 1, [] => none
  | nMaskCode + 1, chAvail :: rest =>
    (readMask (if chAvail ≠ 0 then nMaskCode else nMaskCode + 1) rest).map fun read =>
      (availBits chAvail ++ read.1, read.2)
termination_by _ bytes => bytes.length

/-- The loop over the outputs. -/
def readOuts : List Bool → Bytes → Option (List TxOut × Bytes)
  | [], bytes => some ([], bytes)
  | false :: avail, bytes => (readOuts avail bytes).map fun read => (nullOut :: read.1, read.2)
  | true :: avail, bytes => do
    let (out, rest) ← unserializeTxOut curve bytes
    let (outs, rest) ← readOuts avail rest
    some (out :: outs, rest)

/-- `Unserialize`, with what is left. -/
def unserialize (bytes : Bytes) : Option (Coins × Bytes) := do
  let (version, rest) ← readVarInt32 bytes
  let (nCode, rest) ← readVarInt 32 rest
  let nMaskCode := nCode / 8 + if nCode &&& 6 ≠ 0 then 0 else 1
  let (mask, rest) ← readMask nMaskCode rest
  let (vout, rest) ← readOuts curve ((nCode &&& 2 ≠ 0) :: (nCode &&& 4 ≠ 0) :: mask) rest
  let (height, rest) ← readVarInt32 rest
  some (cleanup ⟨nCode &&& 1 ≠ 0, vout, height, version⟩, rest)

end Amberchain.Storage.Coins

/-!
# Coins are read back from their bytes

Coins whose last output is not spent are what `Unserialize` makes of the bytes of
`Serialize`, and `GetSerializeSize` is the number of these bytes.
-/

namespace Amberchain.Storage.Coins

open Transaction

variable {curve : Curve} {coins : Coins}

theorem availBits_fold (avail : ℕ → Bool) : availBits ((List.range 8).foldl
        (fun byte i => if avail i then byte ||| BitVec.twoPow 8 i else byte) 0) =
        (List.range 8).map avail ∧
      ((List.range 8).foldl
        (fun byte i => if avail i then byte ||| BitVec.twoPow 8 i else byte) (0 : Byte) ≠ 0 ↔
        (List.range 8).any avail = true) := by
  have hrange : List.range 8 = [0, 1, 2, 3, 4, 5, 6, 7] := rfl
  simp only [availBits, hrange, List.foldl, List.map, List.any]
  generalize avail 0 = a0, avail 1 = a1, avail 2 = a2, avail 3 = a3, avail 4 = a4, avail 5 = a5,
    avail 6 = a6, avail 7 = a7
  revert a0 a1 a2 a3 a4 a5 a6 a7
  decide +kernel

theorem availBits_chAvail (b : ℕ) : availBits (coins.chAvail b) =
      (List.range 8).map fun i => coins.isAvailable (2 + b * 8 + i) :=
  (availBits_fold fun i => coins.isAvailable (2 + b * 8 + i)).1

theorem chAvail_ne_zero (b : ℕ) : coins.chAvail b ≠ 0 ↔ coins.maskByteUsed b = true :=
  (availBits_fold fun i => coins.isAvailable (2 + b * 8 + i)).2

/-- The loop of `CalcMaskSize` up to some byte. -/
theorem maskSize_fold (used : ℕ → Bool) (n : ℕ) : ((List.range n).foldl
      (fun (nLastUsedByte, nNonzeroBytes) b =>
        if used b then (b + 1, nNonzeroBytes + 1) else (nLastUsedByte, nNonzeroBytes))
      (0, 0)).2 = (List.range n).countP used ∧
    ((n = 0 ∨ used (n - 1) = true) → ((List.range n).foldl (fun (nLastUsedByte, nNonzeroBytes) b =>
        if used b then (b + 1, nNonzeroBytes + 1) else (nLastUsedByte, nNonzeroBytes))
      (0, 0)).1 = n) := by
  induction n with
  | zero => exact ⟨rfl, fun _ => rfl⟩
  | succ n ih =>
    rw [List.range_succ, List.foldl_append, List.countP_append, ← ih.1, List.foldl_cons,
      List.countP_singleton]
    cases hused : used n with
    | true => exact ⟨rfl, fun _ => rfl⟩
    | false =>
      refine ⟨rfl, fun hlast => ?_⟩
      rcases hlast with hzero | hlast
      · cases hzero
      rw [Nat.add_sub_cancel, hused] at hlast
      cases hlast

/-- The reader stops behind the last byte that is not zero. -/
theorem readMask_append {mask : Bytes} (hlast : ∀ byte, mask.getLast? = some byte → byte ≠ 0)
    (rest : Bytes) : readMask (mask.countP fun byte => byte ≠ 0) (mask ++ rest) =
      some (mask.flatMap availBits, rest) := by
  induction mask with
  | nil => rw [List.countP_nil, List.nil_append, readMask, List.flatMap_nil]
  | cons byte mask ih =>
    have htail : ∀ last, mask.getLast? = some last → last ≠ 0 := by
      intro last hmask
      refine hlast last ?_
      rw [List.getLast?_cons, hmask]
      rfl
    have hread := ih htail
    by_cases hzero : byte = 0
    · have hpos : 0 < mask.countP fun byte => byte ≠ 0 := by
        cases hmask : mask.getLast? with
        | none =>
          rw [List.getLast?_eq_none_iff.mp hmask] at hlast
          exact absurd hzero (hlast byte rfl)
        | some last =>
          exact List.countP_pos_iff.mpr ⟨last, List.mem_of_getLast? hmask,
            decide_eq_true (htail last hmask)⟩
      obtain ⟨code, hcode⟩ := Nat.exists_eq_add_of_lt hpos
      rw [List.countP_cons_of_neg (by simpa using hzero), hcode, List.cons_append, readMask,
        if_neg (not_not.mpr hzero), ← hcode, hread]
      rfl
    rw [List.countP_cons_of_pos (by simpa using hzero), List.cons_append, readMask,
      if_pos hzero, hread]
    rfl

/-- The first two availabilities and those of the mask bytes are the first ones in order. -/
theorem avail_flatMap (n : ℕ) : coins.isAvailable 0 :: coins.isAvailable 1 ::
        ((List.range n).map coins.chAvail).flatMap availBits =
      (List.range (2 + 8 * n)).map coins.isAvailable := by
  induction n with
  | zero => rfl
  | succ n ih =>
    have hnext : (List.range (2 + 8 * (n + 1))).map coins.isAvailable =
        (List.range (2 + 8 * n)).map coins.isAvailable ++ availBits (coins.chAvail n) := by
      rw [show 2 + 8 * (n + 1) = 2 + 8 * n + 8 by omega, List.range_add, List.map_append,
        availBits_chAvail, Nat.mul_comm n 8]
      rfl
    rw [hnext, ← ih, List.range_succ]
    simp

theorem isAvailable_eq {i : ℕ} (hlt : i < coins.vout.length) :
    coins.isAvailable i = !isNull coins.vout[i] := by
  unfold isAvailable
  rw [List.getElem?_eq_getElem hlt]

theorem isAvailable_of_le {i : ℕ} (hle : coins.vout.length ≤ i) : coins.isAvailable i = false := by
  unfold isAvailable
  rw [List.getElem?_eq_none hle]

/-- The availabilities of the outputs, and of none behind them. -/
theorem avail_eq (more : ℕ) : (List.range (coins.vout.length + more)).map coins.isAvailable =
      (coins.vout.map fun out => !isNull out) ++ List.replicate more false := by
  rw [List.range_add, List.map_append, List.map_map]
  congr 1
  · refine List.ext_getElem (by simp) fun i hi hi' => ?_
    rw [List.length_map] at hi'
    rw [List.getElem_map, List.getElem_range, List.getElem_map, isAvailable_eq hi']
  refine List.ext_getElem (by simp) fun i hi hi' => ?_
  rw [List.getElem_map, List.getElem_replicate, Function.comp_apply,
    isAvailable_of_le (Nat.le_add_right _ _)]

theorem land_of_lt_eight {mask : ℕ} (hmask : mask < 8) (code : ℕ) :
    code &&& mask = code % 8 &&& mask := by
  refine Nat.eq_of_testBit_eq fun i => ?_
  rw [Nat.testBit_and, Nat.testBit_and, show 8 = 2 ^ 3 from rfl, Nat.testBit_mod_two_pow]
  by_cases hi : i < 3
  · rw [decide_eq_true hi, Bool.true_and]
  rw [Nat.testBit_lt_two_pow (Nat.lt_of_lt_of_le hmask
    (Nat.pow_le_pow_right (n := 2) (by decide) (Nat.not_lt.mp hi))), Bool.and_false, Bool.and_false]

def codeFlags (coinBase first second : Bool) : ℕ :=
  (if coinBase then 1 else 0) + (if first then 2 else 0) + if second then 4 else 0

theorem codeFlags_land (coinBase first second : Bool) : codeFlags coinBase first second < 8 ∧
      (codeFlags coinBase first second &&& 1 ≠ 0 ↔ coinBase = true) ∧
      (codeFlags coinBase first second &&& 2 ≠ 0 ↔ first = true) ∧
      (codeFlags coinBase first second &&& 4 ≠ 0 ↔ second = true) ∧
      (codeFlags coinBase first second &&& 6 ≠ 0 ↔ (first || second) = true) := by
  revert coinBase first second
  decide

theorem code_flags {coinBase first second : Bool} {nMaskCode code : ℕ}
    (hsome : (first || second) = true ∨ nMaskCode ≠ 0)
    (hcode : code = 8 * (nMaskCode - if first || second then 0 else 1) +
      codeFlags coinBase first second) :
    (code &&& 1 ≠ 0 ↔ coinBase = true) ∧ (code &&& 2 ≠ 0 ↔ first = true) ∧
      (code &&& 4 ≠ 0 ↔ second = true) ∧
      (code / 8 + if code &&& 6 ≠ 0 then 0 else 1) = nMaskCode := by
  obtain ⟨hlt, h1, h2, h4, h6⟩ := codeFlags_land coinBase first second
  have hmod : code % 8 = codeFlags coinBase first second := by omega
  have hdiv : code / 8 = nMaskCode - if first || second then 0 else 1 := by omega
  rw [@land_of_lt_eight 1 (by decide), @land_of_lt_eight 2 (by decide),
    @land_of_lt_eight 4 (by decide), @land_of_lt_eight 6 (by decide), hmod, hdiv]
  refine ⟨h1, h2, h4, ?_⟩
  by_cases hboth : (first || second) = true
  · rw [if_pos (h6.mpr hboth), if_pos hboth]
    rfl
  rw [if_neg (mt h6.mp hboth), if_neg hboth]
  have := hsome.resolve_left hboth
  omega

/-- The outputs are read back, and none behind them. -/
theorem readOuts_append (hcurve : curve.Invertible) {vout : List TxOut}
    (hvalues : ∀ out ∈ vout, out = nullOut ∨ 0 ≤ out.value ∧ out.value ≤ 10 ^ 18)
    (hscripts : ∀ out ∈ vout, out.scriptPubKey.length + nSpecialScripts < 2 ^ 32) (more : ℕ)
    (rest : Bytes) : readOuts curve ((vout.map fun out => !isNull out) ++ List.replicate more false)
        ((vout.filter fun out => !isNull out).flatMap (serializeTxOut curve) ++ rest) =
      some (vout ++ List.replicate more nullOut, rest) := by
  induction vout with
  | nil =>
    rw [List.map_nil, List.filter_nil, List.flatMap_nil, List.nil_append, List.nil_append,
      List.nil_append]
    induction more with
    | zero => rw [List.replicate_zero, List.replicate_zero, readOuts]
    | succ more ih =>
      rw [List.replicate_succ, readOuts, ih]
      rfl
  | cons out vout ih =>
    obtain ⟨hvalue, hvalues⟩ := List.forall_mem_cons.mp hvalues
    obtain ⟨hscript, hscripts⟩ := List.forall_mem_cons.mp hscripts
    have hread := ih hvalues hscripts
    rcases hvalue with hnull | ⟨hnonneg, hmax⟩
    · have hout : isNull out = true := by rw [hnull, isNull_nullOut]
      rw [List.map_cons, hout, List.cons_append, List.filter_cons_of_neg (by simp [hout]), Bool.not_true,
        readOuts, hread, hnull]
      rfl
    have hout : isNull out = false := decide_eq_false (by omega)
    rw [List.map_cons, hout, List.cons_append, List.filter_cons_of_pos (by simp [hout]), Bool.not_false,
      readOuts, List.flatMap_cons, List.append_assoc,
      unserializeTxOut_serializeTxOut hcurve hnonneg hmax hscript, Option.bind_eq_bind,
      Option.bind_some]
    dsimp only
    rw [hread]
    rfl

theorem rdropWhile_append_nullOut {vout : List TxOut} {last : TxOut}
    (hlast : vout.getLast? = some last) (hnull : isNull last = false) (more : ℕ) :
    (vout ++ List.replicate more nullOut).rdropWhile isNull = vout := by
  induction more with
  | zero =>
    obtain ⟨-, rfl⟩ := List.getLast?_eq_some_iff.mp hlast
    rw [List.replicate_zero, List.append_nil,
      List.rdropWhile_concat_neg _ _ _ (by rw [hnull]; exact Bool.false_ne_true)]
  | succ more ih =>
    rw [List.replicate_succ', ← List.append_assoc,
      List.rdropWhile_concat_pos _ _ _ isNull_nullOut, ih]

/-- Coins that are not pruned and cleaned up, with outputs that are spent or have an
amount. -/
structure InRange (coins : Coins) : Prop where
  last : ∃ out, coins.vout.getLast? = some out ∧ isNull out = false
  outs : ∀ out ∈ coins.vout, out = nullOut ∨ 0 ≤ out.value ∧ out.value ≤ 10 ^ 18
  version : 0 ≤ coins.version ∧ coins.version < 2 ^ 31
  height : 0 ≤ coins.height ∧ coins.height < 2 ^ 31

theorem InRange.maskByteUsed_last (hrange : coins.InRange) :
    coins.maskBytes = 0 ∨ coins.maskByteUsed (coins.maskBytes - 1) = true := by
  obtain ⟨out, hlast, hnull⟩ := hrange.last
  by_cases hzero : coins.maskBytes = 0
  · exact .inl hzero
  refine .inr (List.any_eq_true.mpr ⟨(coins.vout.length - 3) % 8, ?_, ?_⟩)
  · exact List.mem_range.mpr (Nat.mod_lt _ (by decide))
  unfold maskBytes at hzero ⊢
  rw [show 2 + ((coins.vout.length - 2 + 7) / 8 - 1) * 8 + (coins.vout.length - 3) % 8 =
    coins.vout.length - 1 by omega, isAvailable_eq (by omega)]
  rw [List.getLast?_eq_getElem?, List.getElem?_eq_getElem (by omega)] at hlast
  rw [Option.some.inj hlast, hnull]
  rfl

theorem InRange.calcMaskSize_eq (hrange : coins.InRange) : coins.calcMaskSize =
      (coins.maskBytes, (List.range coins.maskBytes).countP coins.maskByteUsed) := by
  obtain ⟨hcount, hbytes⟩ := maskSize_fold coins.maskByteUsed coins.maskBytes
  exact Prod.ext (hbytes hrange.maskByteUsed_last) hcount

/-- The assertion of `Serialize` holds. -/
theorem InRange.hasCode (hrange : coins.InRange) :
    (coins.isAvailable 0 || coins.isAvailable 1) = true ∨ coins.calcMaskSize.2 ≠ 0 := by
  obtain ⟨out, hlast, hnull⟩ := hrange.last
  have hpos : 0 < coins.vout.length := by
    rw [List.length_pos_iff]
    rintro hnil
    rw [hnil] at hlast
    cases hlast
  have havail : coins.isAvailable (coins.vout.length - 1) = true := by
    rw [List.getLast?_eq_getElem?, List.getElem?_eq_getElem (by omega)] at hlast
    rw [isAvailable_eq (by omega), Option.some.inj hlast, hnull]
    rfl
  by_cases hzero : coins.maskBytes = 0
  · unfold maskBytes at hzero
    refine .inl (Bool.or_eq_true_iff.mpr ?_)
    by_cases hone : coins.vout.length = 1
    · rw [hone] at havail
      exact .inl havail
    rw [show coins.vout.length - 1 = 1 by omega] at havail
    exact .inr havail
  refine .inr (Nat.pos_iff_ne_zero.mp ?_)
  rw [hrange.calcMaskSize_eq]
  exact List.countP_pos_iff.mpr ⟨coins.maskBytes - 1, List.mem_range.mpr (by omega),
    hrange.maskByteUsed_last.resolve_left hzero⟩

theorem InRange.headerCode_eq (hrange : coins.InRange) (hcount : coins.vout.length + 16 ≤ 2 ^ 32) :
    coins.headerCode =
      8 * (coins.calcMaskSize.2 - if coins.isAvailable 0 || coins.isAvailable 1 then 0 else 1) +
        codeFlags coins.coinBase (coins.isAvailable 0) (coins.isAvailable 1) := by
  have hflags := (codeFlags_land coins.coinBase (coins.isAvailable 0) (coins.isAvailable 1)).1
  have hle : coins.calcMaskSize.2 ≤ coins.maskBytes := by
    rw [hrange.calcMaskSize_eq]
    exact List.countP_le_length.trans_eq List.length_range
  have hexact := Nat.mod_eq_of_lt (b := 2 ^ 32) (a :=
    8 * (coins.calcMaskSize.2 - if coins.isAvailable 0 || coins.isAvailable 1 then 0 else 1) +
      codeFlags coins.coinBase (coins.isAvailable 0) (coins.isAvailable 1))
    (by unfold maskBytes at hle; omega)
  unfold headerCode
  unfold codeFlags at hexact ⊢
  simpa only [Nat.add_assoc] using hexact

theorem InRange.readMask_eq (hrange : coins.InRange) (rest : Bytes) :
    readMask coins.calcMaskSize.2 ((List.range coins.calcMaskSize.1).map coins.chAvail ++ rest) =
      some (((List.range coins.maskBytes).map coins.chAvail).flatMap availBits, rest) := by
  have hcount : (List.range coins.maskBytes).countP coins.maskByteUsed =
      ((List.range coins.maskBytes).map coins.chAvail).countP fun byte => byte ≠ 0 := by
    rw [List.countP_map]
    refine List.countP_congr fun b _ => ?_
    rw [Function.comp_apply, decide_eq_true_iff, chAvail_ne_zero]
  rw [hrange.calcMaskSize_eq, hcount]
  refine readMask_append (fun byte hlast => ?_) rest
  rw [List.getLast?_map, List.getLast?_range] at hlast
  split at hlast
  · cases hlast
  next hzero =>
    cases hlast
    exact (chAvail_ne_zero _).mpr (hrange.maskByteUsed_last.resolve_left hzero)

theorem avail_maskBytes : ∃ more, coins.isAvailable 0 :: coins.isAvailable 1 ::
        ((List.range coins.maskBytes).map coins.chAvail).flatMap availBits =
      (coins.vout.map fun out => !isNull out) ++ List.replicate more false := by
  obtain ⟨more, hmore⟩ : ∃ more, 2 + 8 * coins.maskBytes = coins.vout.length + more :=
    Nat.exists_eq_add_of_le (by unfold maskBytes; omega)
  exact ⟨more, by rw [avail_flatMap, hmore, avail_eq]⟩

/-- Coins are what is read of their bytes, as many bytes as predicted; amounts do not leave 64
bits, and special scripts are decompressed. -/
theorem unserialize_serialize (hcurve : curve.Invertible) (hrange : coins.InRange)
    (hscripts : ∀ out ∈ coins.vout, out.scriptPubKey.length + nSpecialScripts < 2 ^ 32)
    (hcount : coins.vout.length + 16 ≤ 2 ^ 32) : (∃ bytes, coins.serialize curve = some bytes ∧
      (∀ rest, unserialize curve (bytes ++ rest) = some (coins, rest)) ∧
      (bytes.length < 2 ^ 32 → coins.getSerializeSize curve = some bytes.length)) ∧
    (∀ n ≤ 10 ^ 18, compressAmount n = amountCode n) ∧
    ∀ script compr, compress curve script = some compr → ∃ header data,
      compr = header :: data ∧ decompress curve header.toNat data = some script := by
  have hcode := hrange.hasCode
  have hassert : coins.hasCode = true := by
    unfold Coins.hasCode
    rcases hcode with havail | hmask
    · rw [havail, Bool.true_or]
    · rw [decide_eq_true hmask, Bool.or_true]
  refine ⟨⟨_, if_pos hassert, fun rest => ?_, fun hsize => ?_⟩, fun n hmax => compressAmount_eq hmax,
    fun script compr hcompress => ?_⟩
  · obtain ⟨hcoinBase, hfirst, hsecond, hmaskCode⟩ := code_flags hcode (hrange.headerCode_eq hcount)
    have hfits : coins.headerCode < 2 ^ 32 := Nat.mod_lt _ (by decide)
    obtain ⟨more, hmore⟩ := @avail_maskBytes coins
    obtain ⟨out, hlast, hnull⟩ := hrange.last
    unfold unserialize
    simp only [List.append_assoc]
    rw [readVarInt32_writeVarInt32 hrange.version.1 hrange.version.2, Option.bind_eq_bind,
      Option.bind_some]
    rw [readVarInt_writeVarInt hfits, Option.bind_eq_bind, Option.bind_some]
    rw [hmaskCode, hrange.readMask_eq, Option.bind_eq_bind, Option.bind_some]
    have hflag : ∀ {p : Prop} [Decidable p] {flag : Bool}, (p ↔ flag = true) → decide p = flag := by
      intro p _ flag hiff
      rw [Bool.eq_iff_iff, decide_eq_true_iff, hiff]
    rw [hflag hfirst, hflag hsecond, hflag hcoinBase, hmore]
    unfold unspent
    rw [readOuts_append hcurve hrange.outs hscripts, Option.bind_eq_bind, Option.bind_some]
    rw [readVarInt32_writeVarInt32 hrange.height.1 hrange.height.2, Option.bind_some]
    unfold cleanup
    rw [rdropWhile_append_nullOut hlast hnull]
  · unfold getSerializeSize
    rw [if_pos hassert]
    simp only [List.length_append, length_writeVarInt, length_writeVarInt32, List.length_map,
      List.length_range, List.length_flatMap] at hsize ⊢
    rw [Nat.mod_eq_of_lt hsize]
  obtain ⟨header, data, hspecial⟩ := special_of_compress hcurve hcompress
  exact ⟨header, data, hspecial.compr_eq, hspecial.decompress_eq⟩

def emptyCurve : Curve where
  isFullyValid := fun _ => false
  decompress := fun _ => none

theorem invertible_emptyCurve : emptyCurve.Invertible := by
  intro pubkey _ _ hvalid
  cases hvalid

def oneOutput (script : Bytes) : Coins where
  coinBase := false
  vout := [⟨0, script⟩]
  height := 1
  version := 1

theorem inRange_oneOutput (script : Bytes) : (oneOutput script).InRange where
  last := ⟨⟨0, script⟩, rfl, rfl⟩
  outs := by
    intro out hmem
    rw [List.mem_singleton.mp hmem]
    exact .inr ⟨le_rfl, Int.le_of_lt (Int.pow_pos (by decide))⟩
  version := ⟨Int.le_of_lt Int.one_pos, show (1 : ℤ) < 2 ^ 31 by decide⟩
  height := ⟨Int.le_of_lt Int.one_pos, show (1 : ℤ) < 2 ^ 31 by decide⟩

/-- Coins with a spent output before one to a key hash. -/
theorem unserialize_serialize_keyHash : ∃ bytes, serialize emptyCurve
        ⟨true, [nullOut, nullOut, nullOut, ⟨100, [OP_DUP, OP_HASH160, 20] ++ List.replicate 20 7 ++
          [OP_EQUALVERIFY, OP_CHECKSIG]⟩], 5, 1⟩ = some bytes ∧
      unserialize emptyCurve (bytes ++ [9]) =
        some (⟨true, [nullOut, nullOut, nullOut, ⟨100, [OP_DUP, OP_HASH160, 20] ++
          List.replicate 20 7 ++ [OP_EQUALVERIFY, OP_CHECKSIG]⟩], 5, 1⟩, [9]) := by
  obtain ⟨⟨bytes, hbytes, hread, _⟩, _⟩ := @unserialize_serialize emptyCurve
    ⟨true, [nullOut, nullOut, nullOut, ⟨100, [OP_DUP, OP_HASH160, 20] ++ List.replicate 20 7 ++
      [OP_EQUALVERIFY, OP_CHECKSIG]⟩], 5, 1⟩ invertible_emptyCurve
    ⟨⟨_, rfl, rfl⟩, by decide, by decide, by decide⟩ (by decide) (by decide)
  exact ⟨bytes, hbytes, hread [9]⟩

theorem compress_eq_none {script : Bytes} (hlength : 67 < script.length) :
    compress curve script = none := by
  have hkey : isToKeyID script = none := if_neg fun hform => by omega
  have hscript : isToScriptID script = none := if_neg fun hform => by omega
  have hpubkey : isToPubKey curve script = none := by
    unfold isToPubKey
    rw [if_neg fun hform => by omega, if_neg fun hform => by omega]
  unfold compress
  rw [hkey, hscript, hpubkey]

/-- A size of zero stands for a key hash. -/
theorem unserializeScript_zero {data : Bytes} (hlength : 20 ≤ data.length) :
    ∃ script, unserializeScript curve (writeVarInt 0 ++ data) = some (script, data.drop 20) ∧
      script.length = 25 := by
  have hread : readBytes 20 data = some (data.take 20, data.drop 20) :=
    if_neg (Nat.not_lt.mpr hlength)
  refine ⟨[OP_DUP, OP_HASH160, 20] ++ (data.take 20).take 20 ++ [OP_EQUALVERIFY, OP_CHECKSIG], ?_, ?_⟩
  · unfold unserializeScript
    rw [readVarInt_writeVarInt (by decide), Option.bind_eq_bind, Option.bind_some]
    dsimp only
    rw [show getSpecialSize 0 = 20 from rfl, hread]
    rfl
  simp only [List.length_append, List.length_take, List.length_cons, List.length_nil]
  omega

/-- The bytes of coins with a script whose size leaves 32 bits. -/
theorem serialize_oneOutput {script : Bytes} (hlength : script.length + nSpecialScripts = 2 ^ 32) :
    (oneOutput script).serialize curve = some (writeVarInt32 1 ++ (writeVarInt 2 ++
      (writeVarInt 0 ++ (writeVarInt 0 ++ (script ++ writeVarInt32 1))))) := by
  have hlong : 67 < script.length := by
    unfold nSpecialScripts at hlength
    omega
  have hout : serializeTxOut curve ⟨0, script⟩ = writeVarInt 0 ++ (writeVarInt 0 ++ script) := by
    unfold serializeTxOut serializeScript
    rw [compress_eq_none hlong]
    rw [hlength]
    rfl
  have hmask : (oneOutput script).calcMaskSize = (0, 0) := by
    unfold calcMaskSize maskBytes
    rw [show (oneOutput script).vout.length = 1 from rfl]
    rfl
  have hcode : (oneOutput script).headerCode = 2 := by
    unfold headerCode
    rw [hmask]
    rfl
  have hunspent : (oneOutput script).unspent = [⟨0, script⟩] := rfl
  unfold serialize
  rw [hcode, hmask, hunspent, List.flatMap_singleton, hout]
  simp only [List.append_assoc]
  rfl

/-- A script whose size leaves 32 bits is read back as one to a key hash. -/
theorem unserialize_oneOutput {script : Bytes} (hlength : script.length + nSpecialScripts = 2 ^ 32)
    {read : Coins × Bytes} (hread : unserialize curve (writeVarInt32 1 ++ (writeVarInt 2 ++
      (writeVarInt 0 ++ (writeVarInt 0 ++ (script ++ writeVarInt32 1))))) = some read) :
    read.1 ≠ oneOutput script := by
  obtain ⟨other, hother, hsize⟩ := @unserializeScript_zero curve (script ++ writeVarInt32 1) (by
    unfold nSpecialScripts at hlength
    rw [List.length_append]
    omega)
  have hout : unserializeTxOut curve (writeVarInt 0 ++ (writeVarInt 0 ++
      (script ++ writeVarInt32 1))) = some (⟨0, other⟩, (script ++ writeVarInt32 1).drop 20) := by
    unfold unserializeTxOut
    rw [readVarInt_writeVarInt (by decide), Option.bind_eq_bind, Option.bind_some]
    dsimp only
    rw [hother]
    rfl
  have hmask : ∀ bytes : Bytes, readMask (2 / 8 + if 2 &&& 6 ≠ 0 then 0 else 1) bytes =
      some ([], bytes) := by
    intro bytes
    rw [if_pos (by decide), readMask]
  have houts : readOuts curve [decide ((2 : ℕ) &&& 2 ≠ 0), decide ((2 : ℕ) &&& 4 ≠ 0)]
      (writeVarInt 0 ++ (writeVarInt 0 ++ (script ++ writeVarInt32 1))) =
      some ([⟨0, other⟩, nullOut], (script ++ writeVarInt32 1).drop 20) := by
    rw [show decide ((2 : ℕ) &&& 2 ≠ 0) = true from rfl, readOuts, hout]
    rfl
  unfold unserialize at hread
  rw [readVarInt32_writeVarInt32 (by decide) (by decide), Option.bind_eq_bind, Option.bind_some]
    at hread
  dsimp only at hread
  rw [readVarInt_writeVarInt (by decide), Option.bind_eq_bind, Option.bind_some] at hread
  rw [hmask, Option.bind_eq_bind, Option.bind_some] at hread
  rw [houts, Option.bind_eq_bind, Option.bind_some] at hread
  obtain ⟨⟨height, rest⟩, _, hcoins⟩ := Option.bind_eq_some_iff.mp hread
  cases hcoins
  intro heq
  have hvout : [(⟨0, other⟩ : TxOut), nullOut].rdropWhile isNull = [⟨0, script⟩] :=
    congrArg Coins.vout heq
  have hscript : other = script := by
    exact congrArg TxOut.scriptPubKey (List.cons.inj hvout).1
  rw [← hscript, hsize] at hlength
  cases hlength

/-- Coins with a script of `2^32 - 6` bytes are not read back. -/
theorem unserialize_serialize_long :
    ∃ coins : Coins, emptyCurve.Invertible ∧ coins.InRange ∧ ∃ bytes,
      coins.serialize emptyCurve = some bytes ∧ unserialize emptyCurve bytes ≠ some (coins, []) := by
  have hlength : (List.replicate (2 ^ 32 - 6) (0 : Byte)).length + nSpecialScripts = 2 ^ 32 := by
    rw [List.length_replicate]
    rfl
  refine ⟨oneOutput (List.replicate (2 ^ 32 - 6) 0), invertible_emptyCurve, inRange_oneOutput _, _,
    serialize_oneOutput hlength, fun hread => ?_⟩
  exact unserialize_oneOutput hlength hread rfl

end Amberchain.Storage.Coins
