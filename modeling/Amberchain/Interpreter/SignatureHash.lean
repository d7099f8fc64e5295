import Amberchain.Base.Base128
import Amberchain.Base.Consuming
import Amberchain.Interpreter.Eval
import Amberchain.Storage.Coins
import Mathlib.Data.List.GetD

/-!
# Signature hashes

`SignatureHash`: what of a transaction a signature covers, by its hash type.  A changed
output changes the bytes that are hashed if the hash type covers the output.
-/

namespace Amberchain.Interpreter

open Framing Transaction

/-- `CTransaction` with the fields that only signatures read. -/
structure SignedTx extends Tx where
  version : BitVec 32
  sequences : List (BitVec 32)
  lockTime : BitVec 32
  length_sequences : sequences.length = vin.length

/-- `COutPoint` -/
def serializeOutPoint (prevout : OutPoint) : Bytes :=
  putLE prevout.hash.toNat 32 ++ putLE prevout.n 4

/-- `CScript` -/
def serializeScript (script : Bytes) : Bytes :=
  writeCompactSize script.length ++ script

/-- `CTxOut` -/
def serializeOut (out : TxOut) : Bytes :=
  putLE (BitVec.ofInt 64 out.value).toNat 8 ++ serializeScript out.scriptPubKey

def anyoneCanPay (hashType : Byte) : Bool :=
  hashType &&& 0x80 ≠ 0

def hashSingle (hashType : Byte) : Bool :=
  hashType &&& 0x1f = 3

def hashNone (hashType : Byte) : Bool :=
  hashType &&& 0x1f = 2

/-- The bytes of the script code without its `OP_CODESEPARATOR` operations, and how many
those are.  The end of the last operation that is read is the end of what is written. -/
def withoutSeparators : ℕ → Bytes → Bytes × ℕ
  | 0, _ => ([], 0)
  | fuel + 1, script =>
    match getOp script with
    | none => (script.take (script.length - (skipOp script).length), 0)
    | some op =>
      let rest := withoutSeparators fuel op.rest
      if op.opcode = OP_CODESEPARATOR then (rest.1, rest.2 + 1)
      else (script.take (script.length - op.rest.length) ++ rest.1, rest.2)

def serializeScriptCode (scriptCode : Bytes) : Bytes :=
  let written := withoutSeparators (scriptCode.length + 1) scriptCode
  writeCompactSize (scriptCode.length - written.2) ++ written.1

variable (scriptCode : Bytes) (tx : SignedTx) (nIn : ℕ) (hashType : Byte)

def serializeInput (nInput : ℕ) : Bytes :=
  let nInput := if anyoneCanPay hashType then nIn else nInput
  let prevout := (tx.vin.getD nInput ⟨⟨0, 0⟩, []⟩).prevout
  let sequence :=
    if nInput ≠ nIn ∧ (hashSingle hashType ∨ hashNone hashType) then 0
    else tx.sequences.getD nInput 0
  serializeOutPoint prevout
    ++ (if nInput ≠ nIn then serializeScript [] else serializeScriptCode scriptCode)
    ++ putLE sequence.toNat 4

/-- The output that `SerializeOutput` writes. -/
def signedOutput (nOutput : ℕ) : TxOut :=
  if hashSingle hashType ∧ nOutput ≠ nIn then Storage.nullOut
  else tx.vout.getD nOutput Storage.nullOut

def signedOutputCount : ℕ :=
  if hashNone hashType then 0 else if hashSingle hashType then nIn + 1 else tx.vout.length

def serializeInputs : Bytes :=
  let nInputs := if anyoneCanPay hashType then 1 else tx.vin.length
  putLE tx.version.toNat 4 ++ writeCompactSize nInputs
    ++ (List.range nInputs).flatMap (serializeInput scriptCode tx nIn hashType)

def serializeOutputs : Bytes :=
  writeCompactSize (signedOutputCount tx nIn hashType)
    ++ ((List.range (signedOutputCount tx nIn hashType)).map
      (signedOutput tx nIn hashType)).flatMap serializeOut

/-- What `SignatureHash` hashes: the transaction and the hash type. -/
def signaturePreimage : Bytes :=
  serializeInputs scriptCode tx nIn hashType ++ serializeOutputs tx nIn hashType
    ++ putLE tx.lockTime.toNat 4 ++ putLE hashType.toNat 4

/-- `SIGHASH_SINGLE` without an output, or no such input: the hash is one. -/
def outOfRange : Bool :=
  tx.vin.length ≤ nIn ∨ hashSingle hashType ∧ tx.vout.length ≤ nIn

def signatureHash (hash256 : Bytes → Hash256) : Hash256 :=
  if outOfRange tx nIn hashType then 1
  else hash256 (signaturePreimage scriptCode tx nIn hashType)

/-- The values that `CTxOut` can hold. -/
def Representable (out : TxOut) : Prop :=
  -2 ^ 63 ≤ out.value ∧ out.value < 2 ^ 63 ∧ out.scriptPubKey.length < 2 ^ 64

theorem framed_writeCompactSize : Framed writeCompactSize fun size => size < 2 ^ 64 :=
  .of_decode getVarInt (fun read => (read.getD (0, 0)).1) fun size hfits rest => by
    rw [getVarInt_writeCompactSize hfits]
    rfl

theorem framed_serializeScript : Framed serializeScript fun script => script.length < 2 ^ 64 := by
  intro script script' rest other hscript hscript' heq
  unfold serializeScript at heq
  rw [List.append_assoc, List.append_assoc] at heq
  obtain ⟨hlength, htail⟩ := framed_writeCompactSize hscript hscript' heq
  exact List.append_inj htail hlength

theorem framed_value : Framed (fun value : ℤ => putLE (BitVec.ofInt 64 value).toNat 8)
      fun value => -2 ^ 63 ≤ value ∧ value < 2 ^ 63 :=
  .of_decode (getLE · 8) (fun read => (BitVec.ofNat 64 read).toInt) fun value hfits rest => by
    have hlt : (BitVec.ofInt 64 value).toNat < 256 ^ 8 := (BitVec.ofInt 64 value).isLt
    rw [getLE_putLE hlt, BitVec.ofNat_toNat, BitVec.setWidth_eq, BitVec.toInt_ofInt]
    exact Int.bmod_eq_of_le (by omega) (by omega)

theorem framed_serializeOut : Framed serializeOut Representable := by
  intro out out' rest other hout hout' heq
  have hpair := framed_value.append framed_serializeScript
    (a := (out.value, out.scriptPubKey)) (b := (out'.value, out'.scriptPubKey))
    ⟨⟨hout.1, hout.2.1⟩, hout.2.2⟩ ⟨⟨hout'.1, hout'.2.1⟩, hout'.2.2⟩ heq
  obtain ⟨hsame, hrest⟩ := hpair
  cases out
  cases out'
  cases hsame
  exact ⟨rfl, hrest⟩

def SignedTx.withOutputs (tx : SignedTx) (vout : List TxOut) : SignedTx :=
  { tx with vout := vout }

def Fits (reported : Script.SigHash) (hashType : Byte) : Prop :=
  match reported with
  | .all => hashType &&& 0x1f = 1
  | .single => hashType &&& 0x1f = 1 ∨ hashType &&& 0x1f = 3
  | .none => True

/-- The outputs that a reported hash type of an input stands for stay as they are. -/
def KeepsSigned (reported : Script.SigHash) (nIn : ℕ) (vout vout' : List TxOut) : Prop :=
  match reported with
  | .all => vout' = vout
  | .single => ∀ (hlt : nIn < vout.length) (hlt' : nIn < vout'.length), vout'[nIn] = vout[nIn]
  | .none => True

def AllRepresentable (vout : List TxOut) : Prop :=
  vout.length < 2 ^ 64 ∧ ∀ out ∈ vout, Representable out

theorem representable_nullOut : Representable Storage.nullOut :=
  ⟨by decide, by decide, by decide⟩

variable {scriptCode : Bytes} {tx : SignedTx} {nIn : ℕ} {hashType : Byte}

theorem representable_signedOutput (hall : AllRepresentable tx.vout) (nOutput : ℕ) :
    Representable (signedOutput tx nIn hashType nOutput) := by
  unfold signedOutput
  split_ifs
  · exact representable_nullOut
  by_cases hlt : nOutput < tx.vout.length
  · rw [List.getD_eq_getElem _ _ hlt]
    exact hall.2 _ (List.getElem_mem hlt)
  rw [List.getD_eq_default _ _ (Nat.not_lt.mp hlt)]
  exact representable_nullOut

/-- The outputs that are written can be read back. -/
theorem serializeOutputs_inj {vout : List TxOut} (hnIn : nIn < 2 ^ 64 - 1)
    (hall : AllRepresentable tx.vout) (hall' : AllRepresentable vout)
    (heq : serializeOutputs tx nIn hashType = serializeOutputs (tx.withOutputs vout) nIn hashType) :
    signedOutputCount tx nIn hashType = signedOutputCount (tx.withOutputs vout) nIn hashType
      ∧ ∀ k < signedOutputCount tx nIn hashType,
        signedOutput tx nIn hashType k = signedOutput (tx.withOutputs vout) nIn hashType k := by
  have hcount (tx : SignedTx) (hall : AllRepresentable tx.vout) :
      signedOutputCount tx nIn hashType < 2 ^ 64 := by
    have hlt := hall.1
    unfold signedOutputCount
    split_ifs <;> omega
  have hwritten (tx : SignedTx) (hall : AllRepresentable tx.vout) :
      ∀ out ∈ (List.range (signedOutputCount tx nIn hashType)).map (signedOutput tx nIn hashType),
        Representable out := by
    intro out hmem
    obtain ⟨k, -, rfl⟩ := List.mem_map.mp hmem
    exact representable_signedOutput hall k
  obtain ⟨hsame, hbytes⟩ := framed_writeCompactSize (hcount tx hall)
    (hcount (tx.withOutputs vout) hall') heq
  obtain ⟨houts, -⟩ := framed_serializeOut.flatMap
    (by simp only [List.length_map, List.length_range, hsame])
    (hwritten tx hall) (hwritten (tx.withOutputs vout) hall')
    (congrArg (· ++ []) hbytes)
  refine ⟨hsame, ?_⟩
  intro k hk
  rw [← hsame, List.map_inj_left] at houts
  exact houts k (List.mem_range.mpr hk)

/-- The bytes that are hashed tell the hash type and what is written of the outputs. -/
theorem signaturePreimage_inj {vout : List TxOut} {other : Byte} (hnIn : nIn < 2 ^ 64 - 1)
    (hall : AllRepresentable tx.vout) (hall' : AllRepresentable vout)
    (heq : signaturePreimage scriptCode (tx.withOutputs vout) nIn other
      = signaturePreimage scriptCode tx nIn hashType) :
    signedOutputCount tx nIn hashType = signedOutputCount (tx.withOutputs vout) nIn hashType
      ∧ ∀ k < signedOutputCount tx nIn hashType,
        signedOutput tx nIn hashType k = signedOutput (tx.withOutputs vout) nIn hashType k := by
  obtain ⟨hbody, htype⟩ := List.append_inj' heq (by rw [length_putLE, length_putLE])
  have hsame : other = hashType := by
    have hread : getLE (putLE other.toNat 4) 4 = getLE (putLE hashType.toNat 4) 4 :=
      congrArg (getLE · 4) htype
    rw [getLE_putLE_all (Nat.lt_trans other.isLt (by decide)),
      getLE_putLE_all (Nat.lt_trans hashType.isLt (by decide))] at hread
    exact BitVec.eq_of_toNat_eq hread
  subst hsame
  obtain ⟨hbody, -⟩ := List.append_inj' hbody (by rw [length_putLE, length_putLE])
  exact serializeOutputs_inj hnIn hall hall' (List.append_cancel_left hbody).symm

theorem fits_none_false {reported : Script.SigHash} (hreported : reported ≠ .none)
    (hfits : Fits reported hashType) : hashNone hashType = false := by
  cases reported with
  | all => exact decide_eq_false fun hnone => absurd (hfits.symm.trans hnone) (by decide)
  | none => exact absurd rfl hreported
  | single =>
    rcases hfits with hall | hsingle
    · exact decide_eq_false fun hnone => absurd (hall.symm.trans hnone) (by decide)
    exact decide_eq_false fun hnone => absurd (hsingle.symm.trans hnone) (by decide)

theorem hashSingle_false (hall : hashType &&& 0x1f = 1) : hashSingle hashType = false :=
  decide_eq_false fun hsingle => absurd (hall.symm.trans hsingle) (by decide)

/-- A hash type that covers all outputs. -/
theorem signaturePreimage_all {vout : List TxOut} {other : Byte} (hnIn : nIn < 2 ^ 64 - 1)
    (hall : AllRepresentable tx.vout) (hall' : AllRepresentable vout)
    (htype : hashType &&& 0x1f = 1)
    (heq : signaturePreimage scriptCode (tx.withOutputs vout) nIn other
      = signaturePreimage scriptCode tx nIn hashType) : vout = tx.vout := by
  have hnone : hashNone hashType = false := @fits_none_false hashType .all nofun htype
  have hsingle := hashSingle_false htype
  obtain ⟨hcount, hwritten⟩ := signaturePreimage_inj hnIn hall hall' heq
  have hlength (tx : SignedTx) : signedOutputCount tx nIn hashType = tx.vout.length := by
    rw [signedOutputCount, hnone, hsingle, if_neg Bool.false_ne_true, if_neg Bool.false_ne_true]
  have houtput (tx : SignedTx) (k : ℕ) :
      signedOutput tx nIn hashType k = tx.vout.getD k Storage.nullOut := by
    rw [signedOutput, hsingle, if_neg fun h => Bool.false_ne_true h.1]
  rw [hlength, hlength] at hcount
  refine List.ext_getElem hcount.symm ?_
  intro k hk hk'
  have hout := hwritten k (by rw [hlength]; exact hk')
  rw [houtput, houtput, List.getD_eq_getElem _ _ hk',
    List.getD_eq_getElem _ _ (show k < (tx.withOutputs vout).vout.length from hk)] at hout
  exact hout.symm

theorem signaturePreimage_single {vout : List TxOut} {other : Byte} (hnIn : nIn < 2 ^ 64 - 1)
    (hall : AllRepresentable tx.vout) (hall' : AllRepresentable vout)
    (htype : hashType &&& 0x1f = 3) (hlt : nIn < tx.vout.length) (hlt' : nIn < vout.length)
    (heq : signaturePreimage scriptCode (tx.withOutputs vout) nIn other
      = signaturePreimage scriptCode tx nIn hashType) : vout[nIn] = tx.vout[nIn] := by
  have hnone : hashNone hashType = false := @fits_none_false hashType .single nofun (.inr htype)
  have hsingle : hashSingle hashType = true := decide_eq_true htype
  have hwritten := (signaturePreimage_inj hnIn hall hall' heq).2 nIn (by
    rw [signedOutputCount, hnone, hsingle]
    exact Nat.lt_succ_self _)
  unfold signedOutput at hwritten
  rw [if_neg fun h => h.2 rfl, if_neg fun h => h.2 rfl, List.getD_eq_getElem _ _ hlt,
    List.getD_eq_getElem _ _ (show nIn < (tx.withOutputs vout).vout.length from hlt')] at hwritten
  exact hwritten.symm

variable {reported : Script.SigHash} {vout : List TxOut}

theorem signaturePreimage_ne (hnIn : nIn < 2 ^ 64 - 1) (hall : AllRepresentable tx.vout)
    (hall' : AllRepresentable vout) (hfits : Fits reported hashType)
    (hchanged : ¬ KeepsSigned reported nIn tx.vout vout) (other : Byte) :
    signaturePreimage scriptCode (tx.withOutputs vout) nIn other
      ≠ signaturePreimage scriptCode tx nIn hashType := by
  intro heq
  cases reported with
  | all => exact hchanged (signaturePreimage_all hnIn hall hall' hfits heq)
  | none => exact hchanged trivial
  | single =>
    refine hchanged ?_
    intro hlt hlt'
    rcases hfits with htype | htype
    · obtain rfl := signaturePreimage_all hnIn hall hall' htype heq
      rfl
    exact signaturePreimage_single hnIn hall hall' htype hlt hlt' heq

/-- Where a signed output can be changed, the hash is not the constant one. -/
theorem signatureHash_eq {vout' : List TxOut} (hash256 : Bytes → Hash256)
    (hnIn : nIn < tx.vin.length) (hfits : Fits reported hashType)
    (hchanged : ¬ KeepsSigned reported nIn vout vout') (hvout : tx.vout = vout ∨ tx.vout = vout') :
    signatureHash scriptCode tx nIn hashType hash256
      = hash256 (signaturePreimage scriptCode tx nIn hashType) := by
  refine if_neg ?_
  unfold outOfRange
  rw [decide_eq_true_eq]
  rintro (hle | ⟨hsingle, hle⟩)
  · omega
  cases reported with
  | all =>
    rw [hashSingle_false hfits] at hsingle
    cases hsingle
  | none => exact hchanged trivial
  | single =>
    refine hchanged ?_
    intro hlt hlt'
    rcases hvout with hvout | hvout <;> rw [hvout] at hle <;> omega

theorem signatureHash_ne {hash256 : Bytes → Hash256} {other : Byte} (hnIn : nIn < tx.vin.length)
    (hsize : tx.vin.length < 2 ^ 64) (hall : AllRepresentable tx.vout)
    (hall' : AllRepresentable vout) (hfits : Fits reported hashType) (hfits' : Fits reported other)
    (hchanged : ¬ KeepsSigned reported nIn tx.vout vout)
    (hcollision : hash256 (signaturePreimage scriptCode (tx.withOutputs vout) nIn other)
        = hash256 (signaturePreimage scriptCode tx nIn hashType) →
      signaturePreimage scriptCode (tx.withOutputs vout) nIn other
        = signaturePreimage scriptCode tx nIn hashType) :
    signatureHash scriptCode (tx.withOutputs vout) nIn other hash256
      ≠ signatureHash scriptCode tx nIn hashType hash256 := by
  rw [signatureHash_eq hash256 hnIn hfits hchanged (.inl rfl),
    signatureHash_eq hash256 (show nIn < (tx.withOutputs vout).vin.length from hnIn) hfits' hchanged
      (.inr rfl)]
  exact fun heq => signaturePreimage_ne (by omega) hall hall' hfits hchanged other (hcollision heq)

end Amberchain.Interpreter
