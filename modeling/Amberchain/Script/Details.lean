import Amberchain.Base.LittleEndian

/-!
# Details scripts

The details of an entity are a list of parameters.  Each has a name, either a NUL
byte and a one-byte code or a NUL-terminated text, then the size of its value as
a variable-length integer, then the value.
-/

namespace Amberchain

namespace Details

def MC_ENT_SPRM_NAME : Byte := 0x01
def MC_ENT_SPRM_FOLLOW_ONS : Byte := 0x02
def MC_ENT_SPRM_ISSUER : Byte := 0x03
def MC_ENT_SPRM_ANYONE_CAN_WRITE : Byte := 0x04
def MC_ENT_SPRM_ASSET_MULTIPLE : Byte := 0x41
def MC_ENT_SPRM_UPGRADE_PROTOCOL_VERSION : Byte := 0x42
def MC_ENT_SPRM_UPGRADE_START_BLOCK : Byte := 0x43

structure Param where
  valueStart : ℕ
  valueSize : ℕ
  next : ℕ

/-- The size of the name a parameter starts with, its NUL byte included.  A text
that is not terminated has none. -/
def nameSize (script : Bytes) : Option ℕ :=
  if script.head? = some 0 then some 2
  else (script.findIdx? fun byte => byte = 0).map fun length => length + 1

/-- `mc_GetParamFromDetailsScript` inside the script; `none` is
`MC_ERR_ERROR_IN_SCRIPT`. -/
def getParam (script : Bytes) (offset : ℕ) : Option Param := do
  let nameSize ← nameSize (script.drop offset)
  if script.length ≤ offset + nameSize then none
  else
    let (value, shift) ← getVarInt (script.drop (offset + nameSize))
    let valueSize := toInt32 value
    if valueSize < 0 then none
    else
      let valueStart := offset + nameSize + shift
      if script.length < valueStart + valueSize.toNat then none
      else some ⟨valueStart, valueSize.toNat, valueStart + valueSize.toNat⟩

/-- The loop of both searches: the value of the first parameter whose name fits.
A value that starts at the end of the script counts as not found, as the callers
have it. -/
def findParam (script : Bytes) (fits : Bytes → Bool) : ℕ → ℕ → Option Bytes
  | 0, _ => none
  | fuel + 1, offset =>
    if script.length ≤ offset then none
    else
      match getParam script offset with
      | none => none
      | some param =>
        if fits (script.drop offset) then
          if param.valueStart < script.length then
            some ((script.drop param.valueStart).take param.valueSize)
          else none
        else findParam script fits fuel param.next

/-- `mc_FindSpecialParamInDetailsScript` -/
def findSpecialParam (script : Bytes) (code : Byte) : Option Bytes :=
  findParam script (fun name => name.take 2 = [0, code]) script.length 0

def isLowerCase (byte : Byte) : Bool :=
  0x60 < byte ∧ byte < 0x7b

/-- `mc_StringCompareCaseInsensitive` on one letter. -/
def sameLetter (left right : Byte) : Bool :=
  left = right ∨ isLowerCase left ∧ left - 0x20 = right ∨ isLowerCase right ∧ right - 0x20 = left

/-- `mc_FindNamedParamInDetailsScript` -/
def findNamedParam (script name : Bytes) : Option Bytes :=
  findParam script
    (fun rest =>
      let text := rest.takeWhile fun byte => byte ≠ 0
      text ≠ [] ∧ name.length = text.length
        ∧ (name.zip text).all fun letters => sameLetter letters.1 letters.2)
    script.length 0

/-- The loop of `mc_VerifyDetailsScript`. -/
def verifyFrom (script : Bytes) : ℕ → ℕ → Bool
  | 0, _ => true
  | fuel + 1, offset =>
    if script.length ≤ offset then true
    else
      match getParam script offset with
      | none => false
      | some param => verifyFrom script fuel param.next

/-- `mc_VerifyDetailsScript` -/
def verify (script : Bytes) : Bool :=
  verifyFrom script script.length 0

/-- `SetSpecialParamValue` -/
def specialParam (code : Byte) (value : Bytes) : Bytes :=
  0 :: code :: putVarInt value.length ++ value

def lowerCase (text : Bytes) : Bytes :=
  text.map fun byte => if 0x40 < byte ∧ byte < 0x5b then byte + 0x20 else byte

end Details

end Amberchain
