import Amberchain.Interpreter.Stacks
import Amberchain.ParamSet.ParamList
import Amberchain.Script.MultiElement

/-!
# Scripts as texts

`CScript::ToString` writes one word for each operation.  Different scripts may have the same
text, but the scripts that pay to two different keys have two different texts.
-/

namespace Amberchain.Script

open Miner (pushData)
open ParamSet (cstr)

def hexChar (digit : ℕ) : Byte :=
  BitVec.ofNat 8 (if digit < 10 then 0x30 + digit else 0x61 + (digit - 10))

def hexStr (data : Bytes) : Bytes :=
  data.flatMap fun byte => [hexChar (byte.toNat / 16), hexChar (byte.toNat % 16)]

/-- The value of a digit, as `strtol` reads it. -/
def hexValue (char : Byte) : Option ℕ :=
  if 0x30 ≤ char ∧ char ≤ 0x39 then some (char.toNat - 0x30)
  else if 0x61 ≤ char ∧ char ≤ 0x66 then some (char.toNat - 0x61 + 10)
  else if 0x41 ≤ char ∧ char ≤ 0x46 then some (char.toNat - 0x41 + 10)
  else none

/-- `strtol` in base sixteen, of the two digits that `HexToStr` passes on. -/
def hexPair (high low : Byte) : ℕ :=
  match hexValue high, hexValue low with
  | some high, some low => 16 * high + low
  | some high, none => high
  | none, _ => 0

/-- `HexToStr`, of a text of even length. -/
def hexToStr : Bytes → Bytes
  | high :: low :: rest => BitVec.ofNat 8 (hexPair high low) :: hexToStr rest
  | _ => []

theorem hexValue_hexChar {digit : ℕ} (hdigit : digit < 16) :
    hexValue (hexChar digit) = some digit := by
  revert digit
  decide

/-- What `HexStr` writes is read back. -/
@[simp]
theorem hexToStr_hexStr (data : Bytes) : hexToStr (hexStr data) = data := by
  induction data with
  | nil => rfl
  | cons byte data ih =>
    have hpair : hexPair (hexChar (byte.toNat / 16)) (hexChar (byte.toNat % 16)) = byte.toNat := by
      rw [hexPair, hexValue_hexChar (by have := byte.isLt; omega),
        hexValue_hexChar (Nat.mod_lt _ (by decide))]
      exact Nat.div_add_mod _ _
    calc hexToStr (hexStr (byte :: data))
        = BitVec.ofNat 8 (hexPair (hexChar (byte.toNat / 16)) (hexChar (byte.toNat % 16))) ::
            hexToStr (hexStr data) := rfl
      _ = byte :: data := by rw [hpair, ih, BitVec.ofNat_toNat, BitVec.setWidth_eq]

theorem hexStr_injective : Function.Injective hexStr := by
  intro left right heq
  rw [← hexToStr_hexStr left, heq, hexToStr_hexStr]

@[simp]
theorem length_hexStr (data : Bytes) : (hexStr data).length = 2 * data.length := by
  induction data with
  | nil => rfl
  | cons byte data ih =>
    change (hexStr data).length + 2 = _
    rw [ih, List.length_cons]
    ring

def valueString (data : Bytes) : Bytes :=
  if data.length ≤ 4 then cstr (toString (Interpreter.getInt (Interpreter.setVch data)))
  else hexStr data

/-- The names of the operations behind the pushes, from `OP_1NEGATE` on. -/
def opNames : List String :=
  ["-1", "OP_RESERVED", "1", "2", "3", "4", "5", "6", "7", "8", "9", "10", "11", "12", "13",
    "14", "15", "16",
    "OP_NOP", "OP_VER", "OP_IF", "OP_NOTIF", "OP_VERIF", "OP_VERNOTIF", "OP_ELSE", "OP_ENDIF",
    "OP_VERIFY", "OP_RETURN",
    "OP_TOALTSTACK", "OP_FROMALTSTACK", "OP_2DROP", "OP_2DUP", "OP_3DUP", "OP_2OVER", "OP_2ROT",
    "OP_2SWAP", "OP_IFDUP", "OP_DEPTH", "OP_DROP", "OP_DUP", "OP_NIP", "OP_OVER", "OP_PICK",
    "OP_ROLL", "OP_ROT", "OP_SWAP", "OP_TUCK",
    "OP_CAT", "OP_SUBSTR", "OP_LEFT", "OP_RIGHT", "OP_SIZE",
    "OP_INVERT", "OP_AND", "OP_OR", "OP_XOR", "OP_EQUAL", "OP_EQUALVERIFY", "OP_RESERVED1",
    "OP_RESERVED2",
    "OP_1ADD", "OP_1SUB", "OP_2MUL", "OP_2DIV", "OP_NEGATE", "OP_ABS", "OP_NOT", "OP_0NOTEQUAL",
    "OP_ADD", "OP_SUB", "OP_MUL", "OP_DIV", "OP_MOD", "OP_LSHIFT", "OP_RSHIFT", "OP_BOOLAND",
    "OP_BOOLOR", "OP_NUMEQUAL", "OP_NUMEQUALVERIFY", "OP_NUMNOTEQUAL", "OP_LESSTHAN",
    "OP_GREATERTHAN", "OP_LESSTHANOREQUAL", "OP_GREATERTHANOREQUAL", "OP_MIN", "OP_MAX",
    "OP_WITHIN",
    "OP_RIPEMD160", "OP_SHA1", "OP_SHA256", "OP_HASH160", "OP_HASH256", "OP_CODESEPARATOR",
    "OP_CHECKSIG", "OP_CHECKSIGVERIFY", "OP_CHECKMULTISIG", "OP_CHECKMULTISIGVERIFY",
    "OP_NOP1", "OP_NOP2", "OP_NOP3", "OP_NOP4", "OP_NOP5", "OP_NOP6", "OP_NOP7", "OP_NOP8",
    "OP_NOP9", "OP_NOP10"]

/-- `GetOpName`, of an operation that pushes nothing. -/
def getOpName (opcode : Byte) : String :=
  if opcode = 0xff then "OP_INVALIDOPCODE"
  else (opNames[opcode.toNat - 0x4f]?).getD "OP_UNKNOWN"

/-- The word of one operation. -/
def opText (op : ScriptOp) : Bytes :=
  if op.opcode ≤ OP_PUSHDATA4 then valueString op.data else cstr (getOpName op.opcode)

/-- The loop of `ToString`, for some operations. -/
def textFrom : ℕ → Bytes → Bytes → Bytes
  | 0, _, str => str
  | rounds + 1, script, str =>
    if script = [] then str
    else
      let str := if str = [] then str else str ++ cstr " "
      match getOp script with
      | none => str ++ cstr "[error]"
      | some op => textFrom rounds op.rest (str ++ opText op)

/-- `CScript::ToString`.  No operation is shorter than a byte. -/
def scriptToString (script : Bytes) : Bytes :=
  textFrom script.length script []

theorem textFrom_op {rounds : ℕ} {script str : Bytes} {op : ScriptOp}
    (hop : getOp script = some op) : textFrom (rounds + 1) script str =
      textFrom rounds op.rest ((if str = [] then str else str ++ cstr " ") ++ opText op) := by
  have hne : script ≠ [] := by
    rintro rfl
    cases hop
  rw [textFrom, if_neg hne]
  rw [hop]

theorem textFrom_plain {opcode : Byte} (hplain : OP_PUSHDATA4 < opcode) (rounds : ℕ)
    (rest str : Bytes) : textFrom (rounds + 1) (opcode :: rest) str = textFrom rounds rest
        ((if str = [] then str else str ++ cstr " ") ++ cstr (getOpName opcode)) := by
  rw [textFrom_op (getOp_plain hplain rest), opText, if_neg (BitVec.not_le.mpr hplain)]

theorem length_keyScript (id : Hash160) : (getScriptForDestination (.key id)).length = 25 := by
  simp [getScriptForDestination, pushData, OP_PUSHDATA1]

theorem scriptToString_key (id : Hash160) : scriptToString (getScriptForDestination (.key id)) =
      cstr "OP_DUP OP_HASH160 " ++ hexStr (putLE id.toNat 20) ++
        cstr " OP_EQUALVERIFY OP_CHECKSIG" := by
  obtain ⟨opcode, hpush, hop⟩ := getOp_pushData_append (length_addressBytes id)
    [OP_EQUALVERIFY, OP_CHECKSIG]
  have hword : opText ⟨opcode, putLE id.toNat 20, [OP_EQUALVERIFY, OP_CHECKSIG]⟩ =
      hexStr (putLE id.toNat 20) := by
    rw [opText, if_pos hpush, valueString, if_neg (by rw [length_putLE]; decide)]
  have hscript : getScriptForDestination (.key id) =
      OP_DUP :: OP_HASH160 :: (pushData (putLE id.toNat 20) ++ [OP_EQUALVERIFY, OP_CHECKSIG]) :=
    List.append_assoc _ _ _
  have hstart : textFrom 25 (getScriptForDestination (.key id)) [] =
      textFrom 23 (pushData (putLE id.toNat 20) ++ [OP_EQUALVERIFY, OP_CHECKSIG])
        (cstr "OP_DUP OP_HASH160") := by
    rw [hscript, textFrom_plain (by decide), textFrom_plain (by decide)]
    rfl
  calc scriptToString (getScriptForDestination (.key id))
      = textFrom 25 (getScriptForDestination (.key id)) [] := by
        rw [scriptToString, length_keyScript]
    _ = textFrom 22 [OP_EQUALVERIFY, OP_CHECKSIG]
          (cstr "OP_DUP OP_HASH160 " ++ hexStr (putLE id.toNat 20)) := by
        rw [hstart, textFrom_op hop, hword]
        rfl
    _ = _ := by
        rfl

theorem scriptToString_key_inj {left right : Hash160}
    (heq : scriptToString (getScriptForDestination (.key left)) =
      scriptToString (getScriptForDestination (.key right))) : left = right := by
  rw [scriptToString_key, scriptToString_key, List.append_cancel_right_eq,
    List.append_cancel_left_eq] at heq
  have haddress := congrArg addressOf (hexStr_injective heq)
  rwa [addressOf_putLE, addressOf_putLE] at haddress

theorem scriptToString_short_ne (id : Hash160) :
    scriptToString [OP_DUP, OP_HASH160] ≠ scriptToString (getScriptForDestination (.key id)) := by
  rw [scriptToString_key]
  intro heq
  have hlength := congrArg List.length heq
  rw [List.length_append, List.length_append, length_hexStr, length_putLE] at hlength
  exact absurd hlength (by decide)

end Amberchain.Script
