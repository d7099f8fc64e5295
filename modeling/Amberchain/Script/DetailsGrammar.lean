import Amberchain.Script.Details

/-!
# The grammar of details scripts

What `SetSpecialParamValue` and `SetParamValue` write one after the other is what
the functions that walk over a details script find, and the scripts that
`mc_VerifyDetailsScript` lets pass are those that are made of parameters.  The sizes
of a script are signed 32-bit integers, so a script has fewer than `2 ^ 31` bytes.
-/

namespace Amberchain

namespace Details

/-- The name of a parameter: a code behind a NUL byte, or a text. -/
inductive ParamName where
  | special (code : Byte)
  | named (text : Bytes) (hne : text ≠ []) (hnul : 0 ∉ text)
deriving DecidableEq

def ParamName.bytes : ParamName → Bytes
  | .special code => [0, code]
  | .named text _ _ => text ++ [0]

structure Parameter where
  name : ParamName
  value : Bytes
deriving DecidableEq

def paramValue (name value : Bytes) : Bytes :=
  name ++ 0 :: putVarInt value.length ++ value

/-- What the setter of a parameter appends to the script. -/
def Parameter.encode (parameter : Parameter) : Bytes :=
  match parameter.name with
  | .special code => specialParam code parameter.value
  | .named text _ _ => paramValue text parameter.value

def encodeAll (parameters : List Parameter) : Bytes :=
  parameters.flatMap Parameter.encode

def Sized (size value : Bytes) : Prop :=
  ∃ number, getVarInt size = some (number, size.length) ∧ toInt32 number = value.length

/-- A script that is made of parameters. -/
inductive Written : List Parameter → Bytes → Prop
  | nil : Written [] []
  | cons {parameter : Parameter} {size : Bytes} {rest : List Parameter} {tail : Bytes}
      (hsize : Sized size parameter.value) (hrest : Written rest tail) :
      Written (parameter :: rest)
        (parameter.name.bytes ++ (size ++ (parameter.value ++ tail)))

/-- A walk over a details script from an offset: where each parameter starts and
what `mc_GetParamFromDetailsScript` says of it, and the offset where it ends. -/
def visitFrom (script : Bytes) : ℕ → ℕ → List (ℕ × Param) × ℕ
  | 0, offset => ([], offset)
  | fuel + 1, offset =>
    if script.length ≤ offset then ([], offset)
    else
      match getParam script offset with
      | none => ([], script.length)
      | some param =>
        let result := visitFrom script fuel param.next
        ((offset, param) :: result.1, result.2)

def visit (script : Bytes) : List (ℕ × Param) × ℕ :=
  visitFrom script script.length 0

/-- The loop of both searches, with what they return: the offset of the value, and
its size when it was set. -/
def searchFrom (script : Bytes) (fits : Bytes → Bool) : ℕ → ℕ → ℕ × Option ℕ
  | 0, _ => (script.length, none)
  | fuel + 1, offset =>
    if script.length ≤ offset then (script.length, none)
    else
      match getParam script offset with
      | none => (script.length, none)
      | some param =>
        if fits (script.drop offset) then (param.valueStart, some param.valueSize)
        else searchFrom script fits fuel param.next

def fitsCode (code : Byte) (rest : Bytes) : Bool :=
  rest.take 2 = [0, code]

/-- What follows in the script starts with a text that compares equal. -/
def fitsName (name rest : Bytes) : Bool :=
  let text := rest.takeWhile fun byte => byte ≠ 0
  text ≠ [] ∧ name.length = text.length
    ∧ (name.zip text).all fun letters => sameLetter letters.1 letters.2

def findSpecialParamInDetailsScript (script : Bytes) (code : Byte) : ℕ × Option ℕ :=
  searchFrom script (fitsCode code) script.length 0

def findNamedParamInDetailsScript (script name : Bytes) : ℕ × Option ℕ :=
  searchFrom script (fitsName name) script.length 0

/-- A search returns the value of the parameter: its size, and where it stands.
Without a parameter it returns the size of the script. -/
def FirstFound (script : Bytes) (result : ℕ × Option ℕ) : Option Parameter → Prop
  | none => result = (script.length, none)
  | some parameter => result.2 = some parameter.value.length
    ∧ (script.drop result.1).take parameter.value.length = parameter.value

theorem ParamName.length_pos (name : ParamName) : 0 < name.bytes.length := by
  cases name with
  | special code => exact Nat.two_pos
  | named text hne hnul =>
    rw [ParamName.bytes, List.length_append]
    exact Nat.succ_pos _

theorem findIdx_nul {text : Bytes} (hnul : 0 ∉ text) (rest : Bytes) :
    (text ++ 0 :: rest).findIdx? (fun byte => byte = 0) = some text.length := by
  induction text with
  | nil => rfl
  | cons byte text ih =>
    have hbyte : byte ≠ 0 := fun heq => hnul (heq ▸ (.head _))
    have htext : 0 ∉ text := fun hmem => hnul (.tail _ hmem)
    rw [List.cons_append, List.findIdx?_cons, ih htext, if_neg]
    · rfl
    simpa using hbyte

theorem nameSize_bytes (name : ParamName) (rest : Bytes) :
    nameSize (name.bytes ++ rest) = some name.bytes.length := by
  cases name with
  | special code => rfl
  | named text hne hnul =>
    cases text with
    | nil => exact absurd rfl hne
    | cons byte text =>
      have hbyte : byte ≠ 0 := fun heq => hnul (heq ▸ (.head _))
      have hindex := findIdx_nul hnul rest
      rw [ParamName.bytes, nameSize, if_neg]
      · rw [List.append_assoc, List.singleton_append, hindex, List.length_append]
        rfl
      simpa using hbyte

theorem exists_name_of_nameSize {script : Bytes} {size : ℕ} (hsize : nameSize script = some size)
    (hlt : size < script.length) : ∃ name : ParamName, name.bytes.length = size
      ∧ script = name.bytes ++ script.drop size := by
  rw [nameSize] at hsize
  split at hsize
  next hhead =>
    cases hsize
    match script, hhead, hlt with
    | first :: code :: rest, hhead, _ =>
      have hfirst : first = 0 := by simpa using hhead
      exact ⟨.special code, rfl, by rw [hfirst]; rfl⟩
  next hhead =>
    rw [Option.map_eq_some_iff] at hsize
    obtain ⟨length, hindex, hlength⟩ := hsize
    rw [List.findIdx?_eq_some_iff_getElem] at hindex
    obtain ⟨hbound, hbyte, hbefore⟩ := hindex
    have hdrop : script.drop length = 0 :: script.drop (length + 1) := by
      rw [List.drop_eq_getElem_cons hbound, of_decide_eq_true hbyte]
    have hne : script.take length ≠ [] := by
      intro hnil
      have hzero : length = 0 := by
        have := congrArg List.length hnil
        rw [List.length_take, List.length_nil] at this
        omega
      rw [hzero, List.drop_zero] at hdrop
      rw [hdrop] at hhead
      exact hhead rfl
    have hnul : 0 ∉ script.take length := by
      intro hmem
      obtain ⟨index, hlt, hget⟩ := List.mem_iff_getElem.mp hmem
      rw [List.length_take] at hlt
      have := hbefore index (by omega)
      rw [List.getElem_take] at hget
      simp [hget] at this
    refine ⟨.named (script.take length) hne hnul, ?_, ?_⟩
    · rw [ParamName.bytes]
      simp
      omega
    rw [ParamName.bytes, List.append_assoc, List.cons_append, List.nil_append, ← hlength,
      ← hdrop, List.take_append_drop]

/-- The parameter at an offset: its name, its size and its value. -/
theorem getParam_of_drop {script : Bytes} {offset : ℕ} {name : ParamName} {size value rest : Bytes}
    (hdrop : script.drop offset = name.bytes ++ (size ++ (value ++ rest)))
    (hsize : Sized size value) :
    getParam script offset = some ⟨offset + name.bytes.length + size.length, value.length,
      offset + name.bytes.length + size.length + value.length⟩ := by
  obtain ⟨number, hnumber, hvalue⟩ := hsize
  have hpos := (getVarInt_le hnumber).1
  have hlength : script.length - offset
      = name.bytes.length + (size.length + (value.length + rest.length)) := by
    rw [← List.length_drop, hdrop, List.length_append, List.length_append, List.length_append]
  have hbehind : script.drop (offset + name.bytes.length) = size ++ (value ++ rest) := by
    rw [← List.drop_drop, hdrop, List.drop_left]
  have hread : getVarInt (size ++ (value ++ rest)) = some (number, size.length) := by
    have htake := getVarInt_take hnumber (value ++ rest)
    rwa [List.take_length] at htake
  rw [getParam, hdrop, nameSize_bytes, Option.bind_eq_bind, Option.bind_some, if_neg, hbehind,
    hread]
  · rw [Option.bind_eq_bind, Option.bind_some]
    dsimp only
    rw [hvalue, if_neg (Int.not_lt.mpr (Int.natCast_nonneg _)), Int.toNat_natCast, if_neg]
    omega
  omega

theorem exists_parameter_of_getParam {script : Bytes} {offset : ℕ} {param : Param}
    (hparam : getParam script offset = some param) : ∃ (name : ParamName) (size value : Bytes),
      script.drop offset = name.bytes ++ (size ++ (value ++ script.drop param.next))
        ∧ Sized size value ∧ param = ⟨offset + name.bytes.length + size.length, value.length,
          offset + name.bytes.length + size.length + value.length⟩ := by
  rw [getParam] at hparam
  simp only [Option.bind_eq_bind, Option.bind_eq_some_iff] at hparam
  obtain ⟨length, hlength, hparam⟩ := hparam
  split at hparam
  · cases hparam
  next hbehind =>
    rw [Option.bind_eq_some_iff] at hparam
    obtain ⟨⟨number, shift⟩, hnumber, hparam⟩ := hparam
    dsimp only at hparam
    split at hparam
    · cases hparam
    next hsign =>
      split at hparam
      · cases hparam
      next hend =>
        cases hparam
        have hshift := getVarInt_le hnumber
        obtain ⟨name, hname, hscript⟩ := exists_name_of_nameSize hlength (by
          rw [List.length_drop]
          omega)
        have hvalue : ((script.drop (offset + length + shift)).take
            (toInt32 number).toNat).length = (toInt32 number).toNat := by
          rw [List.length_take, List.length_drop]
          omega
        have hsize : ((script.drop (offset + length)).take shift).length = shift := by
          rw [List.length_take]
          omega
        refine ⟨name, (script.drop (offset + length)).take shift,
          (script.drop (offset + length + shift)).take (toInt32 number).toNat, ?_, ?_, ?_⟩
        · calc
            script.drop offset = name.bytes ++ script.drop (offset + length) := by
              rwa [List.drop_drop] at hscript
            _ = _ := by
              rw [← drop_eq_take_append_drop, ← drop_eq_take_append_drop]
        · refine ⟨number, ?_, ?_⟩
          · have htake := getVarInt_take hnumber []
            rw [hsize]
            rwa [List.append_nil] at htake
          · rw [hvalue, Int.toNat_of_nonneg (Int.not_lt.mp hsign)]
        rw [hname, hsize, hvalue]

/-- The parameters that are read from an offset to the end of the script, with
where each starts and what is returned for it. -/
inductive Walk (script : Bytes) : ℕ → List (Parameter × ℕ × Param) → Prop
  | done : Walk script script.length []
  | next {offset : ℕ} {parameter : Parameter} {param : Param} {behind : Bytes}
      {rest : List (Parameter × ℕ × Param)}
      (hparam : getParam script offset = some param)
      (hname : script.drop offset = parameter.name.bytes ++ behind)
      (hsize : param.valueSize = parameter.value.length)
      (hvalue : (script.drop param.valueStart).take parameter.value.length = parameter.value)
      (hrest : Walk script param.next rest) :
      Walk script offset ((parameter, offset, param) :: rest)

theorem Written.walk {parameters : List Parameter} {script : Bytes} {offset : ℕ}
    (hwritten : Written parameters (script.drop offset)) (hoffset : offset ≤ script.length) :
    ∃ read, Walk script offset read ∧ read.map Prod.fst = parameters := by
  generalize htail : script.drop offset = tail at hwritten
  induction hwritten generalizing offset with
  | nil =>
    have hend : offset = script.length := by
      have hlength := congrArg List.length htail
      rw [List.length_drop, List.length_nil] at hlength
      omega
    rw [hend]
    exact ⟨[], .done, rfl⟩
  | @cons parameter size rest tail hsize hrest ih =>
    have hparam := getParam_of_drop htail hsize
    have hlength := congrArg List.length htail
    simp only [List.length_drop, List.length_append] at hlength
    have hbehind : script.drop (offset + parameter.name.bytes.length + size.length)
        = parameter.value ++ tail := by
      rw [← List.drop_drop, ← List.drop_drop, htail, List.drop_left, List.drop_left]
    have htail' : script.drop (offset + parameter.name.bytes.length + size.length
        + parameter.value.length) = tail := by
      rw [← List.drop_drop, hbehind, List.drop_left]
    obtain ⟨read, hread, hparameters⟩ := ih (by omega) htail'
    refine ⟨(parameter, offset, _) :: read, .next hparam htail rfl ?_ hread, ?_⟩
    · rw [hbehind, List.take_left]
    rw [List.map_cons, hparameters]

namespace Walk

variable {script : Bytes} {offset fuel : ℕ} {read : List (Parameter × ℕ × Param)}

theorem length_le (hwalk : Walk script offset read) : read.length + offset ≤ script.length := by
  induction hwalk with
  | done => simp
  | @next offset parameter param behind rest hparam hname hsize hvalue hrest ih =>
    obtain ⟨_, size, value, _, ⟨number, hnumber, _⟩, hparam'⟩ := exists_parameter_of_getParam hparam
    have hpos := (getVarInt_le hnumber).1
    have hnext : offset < param.next := by
      rw [hparam']
      dsimp only
      omega
    rw [List.length_cons]
    omega

theorem verifyFrom_eq (hwalk : Walk script offset read) : verifyFrom script fuel offset = true := by
  induction hwalk generalizing fuel with
  | done =>
    cases fuel with
    | zero => rfl
    | succ fuel => rw [verifyFrom, if_pos le_rfl]
  | @next offset parameter param behind rest hparam hname hsize hvalue hrest ih =>
    cases fuel with
    | zero => rfl
    | succ fuel =>
      rw [verifyFrom, hparam]
      dsimp only
      rw [ih, ite_self]

theorem offset_lt {entry : Parameter × ℕ × Param} {rest : List (Parameter × ℕ × Param)}
    (hwalk : Walk script offset (entry :: rest)) : offset < script.length := by
  have hlength := hwalk.length_le
  rw [List.length_cons] at hlength
  omega

theorem visitFrom_eq (hwalk : Walk script offset read) (hfuel : read.length ≤ fuel) :
    visitFrom script fuel offset = (read.map Prod.snd, script.length) := by
  induction hwalk generalizing fuel with
  | done =>
    cases fuel with
    | zero => rfl
    | succ fuel =>
      rw [visitFrom, if_pos le_rfl]
      rfl
  | @next offset parameter param behind rest hparam hname hsize hvalue hrest ih =>
    have hlt := (Walk.next hparam hname hsize hvalue hrest).offset_lt
    cases fuel with
    | zero => cases hfuel
    | succ fuel =>
      rw [visitFrom, if_neg (Nat.not_le_of_lt hlt), hparam]
      dsimp only
      rw [ih (Nat.le_of_succ_le_succ hfuel)]
      rfl

/-- Both searches stop at the first parameter whose name fits. -/
theorem searchFrom_eq (hwalk : Walk script offset read) (hfuel : read.length ≤ fuel)
    {fits : Bytes → Bool} {isSought : ParamName → Bool}
    (hfits : ∀ (name : ParamName) (rest : Bytes), fits (name.bytes ++ rest) = isSought name) :
    FirstFound script (searchFrom script fits fuel offset)
      ((read.map Prod.fst).find? fun parameter => isSought parameter.name) := by
  induction hwalk generalizing fuel with
  | done =>
    cases fuel with
    | zero => rfl
    | succ fuel =>
      rw [searchFrom, if_pos le_rfl]
      rfl
  | @next offset parameter param behind rest hparam hname hsize hvalue hrest ih =>
    have hlt := (Walk.next hparam hname hsize hvalue hrest).offset_lt
    cases fuel with
    | zero => cases hfuel
    | succ fuel =>
      rw [searchFrom, if_neg (Nat.not_le_of_lt hlt), hparam, hname, hfits, List.map_cons,
        List.find?_cons]
      cases hsought : isSought parameter.name with
      | false => exact ih (Nat.le_of_succ_le_succ hfuel)
      | true => exact ⟨congrArg some hsize, hvalue⟩

end Walk

theorem sameLetter_iff (left right : Byte) :
    sameLetter left right = true ↔ lowerCase [left] = lowerCase [right] := by
  simp only [sameLetter, isLowerCase, lowerCase, List.map_cons, List.map_nil, List.cons.injEq,
    and_true, decide_eq_true_eq]
  -- each letter is in upper case or not
  split <;> split <;> bv_omega

theorem sameLetters_iff {name text : Bytes} (hlength : name.length = text.length) :
    (name.zip text).all (fun letters => sameLetter letters.1 letters.2) = true
      ↔ lowerCase name = lowerCase text := by
  induction name generalizing text with
  | nil =>
    cases text with
    | nil => simp
    | cons byte text => cases hlength
  | cons letter name ih =>
    cases text with
    | nil => cases hlength
    | cons byte text =>
      have hrest := ih (Nat.succ_injective hlength)
      have hfirst := sameLetter_iff letter byte
      rw [List.zip_cons_cons, List.all_cons, Bool.and_eq_true, hrest, hfirst]
      simp [lowerCase]

/-- The name is a text that is `name` up to case. -/
def ParamName.isNamed (name : Bytes) : ParamName → Bool
  | .special _ => false
  | .named text _ _ => lowerCase name = lowerCase text

theorem fitsCode_bytes (code : Byte) (name : ParamName) (rest : Bytes) :
    fitsCode code (name.bytes ++ rest) = decide (name = .special code) := by
  cases name with
  | special other => simp [fitsCode, ParamName.bytes, eq_comm]
  | named text hne hnul =>
    cases text with
    | nil => exact absurd rfl hne
    | cons byte text =>
      have hbyte : byte ≠ 0 := fun heq => hnul (heq ▸ (.head _))
      simpa [fitsCode, ParamName.bytes] using fun heq => absurd heq hbyte

theorem fitsName_bytes (name : Bytes) (stored : ParamName) (rest : Bytes) :
    fitsName name (stored.bytes ++ rest) = stored.isNamed name := by
  cases stored with
  | special code => simp [fitsName, ParamName.bytes, ParamName.isNamed]
  | named text hne hnul =>
    have htext : (text ++ [0] ++ rest).takeWhile (fun byte => byte ≠ 0) = text := by
      rw [List.append_assoc, List.takeWhile_append_of_pos]
      · simp
      intro byte hmem
      exact decide_eq_true fun heq => hnul (heq ▸ hmem)
    rw [ParamName.bytes, fitsName, htext, ParamName.isNamed, decide_eq_decide]
    constructor
    · rintro ⟨_, hlength, hletters⟩
      exact (sameLetters_iff hlength).mp hletters
    intro hsame
    have hlength : name.length = text.length := by
      have := congrArg List.length hsame
      rwa [lowerCase, lowerCase, List.length_map, List.length_map] at this
    exact ⟨hne, hlength, (sameLetters_iff hlength).mpr hsame⟩

theorem sized_putVarInt {value : Bytes} (hlength : value.length < 2 ^ 31) :
    Sized (putVarInt value.length) value := by
  refine ⟨value.length, ?_, ?_⟩
  · have hfits : value.length < 2 ^ 64 := by omega
    have hread := getVarInt_putVarInt hfits []
    rwa [List.append_nil] at hread
  exact toInt32_of_lt hlength

theorem encode_eq (parameter : Parameter) : parameter.encode
    = parameter.name.bytes ++ (putVarInt parameter.value.length ++ parameter.value) := by
  obtain ⟨name, -⟩ := parameter
  cases name with
  | special code => rfl
  | named text hne hnul =>
    simp [Parameter.encode, paramValue, ParamName.bytes]

theorem encodeAll_cons (parameter : Parameter) (rest : List Parameter) :
    encodeAll (parameter :: rest) = parameter.encode ++ encodeAll rest :=
  rfl

theorem written_encodeAll {parameters : List Parameter}
    (hlength : (encodeAll parameters).length < 2 ^ 31) :
    Written parameters (encodeAll parameters) := by
  induction parameters with
  | nil => exact .nil
  | cons parameter rest ih =>
    rw [encodeAll_cons, encode_eq] at hlength ⊢
    simp only [List.length_append] at hlength
    have hsize : Sized (putVarInt parameter.value.length) parameter.value :=
      sized_putVarInt (by omega)
    have hwritten := (ih (by omega)).cons hsize
    rwa [List.append_assoc, List.append_assoc]

theorem exists_written_of_verifyFrom {script : Bytes} {fuel offset : ℕ}
    (hoffset : offset ≤ script.length) (hfuel : script.length - offset ≤ fuel)
    (hverify : verifyFrom script fuel offset = true) :
    ∃ parameters, Written parameters (script.drop offset) := by
  induction fuel generalizing offset with
  | zero =>
    rw [List.drop_eq_nil_of_le (by omega)]
    exact ⟨[], .nil⟩
  | succ fuel ih =>
    rw [verifyFrom] at hverify
    split at hverify
    next hend =>
      rw [List.drop_eq_nil_of_le hend]
      exact ⟨[], .nil⟩
    next hend =>
      split at hverify
      · cases hverify
      next param hparam =>
        obtain ⟨name, size, value, hdrop, hsize, hparam'⟩ := exists_parameter_of_getParam hparam
        have hpos := name.length_pos
        have hlength := congrArg List.length hdrop
        simp only [List.length_drop, List.length_append] at hlength
        have hnext : offset < param.next ∧ param.next ≤ script.length := by
          rw [hparam'] at hlength ⊢
          dsimp only at hlength ⊢
          omega
        obtain ⟨parameters, hwritten⟩ := ih hnext.2 (by omega) hverify
        refine ⟨⟨name, value⟩ :: parameters, ?_⟩
        rw [hdrop]
        exact .cons hsize hwritten

def nameAt (script : Bytes) (offset : ℕ) : Bytes :=
  (script.drop offset).take ((nameSize (script.drop offset)).getD 0)

def valueAt (script : Bytes) (param : Param) : Bytes :=
  (script.drop param.valueStart).take param.valueSize

structure Reads (parameters : List Parameter) (script : Bytes) : Prop where
  verified : verify script = true
  visited : (visit script).1.map (fun found => (nameAt script found.1, valueAt script found.2))
    = parameters.map fun parameter => (parameter.name.bytes, parameter.value)
  ends : (visit script).2 = script.length
  special : ∀ code, FirstFound script (findSpecialParamInDetailsScript script code)
    (parameters.find? fun parameter => parameter.name = .special code)
  named : ∀ name, FirstFound script (findNamedParamInDetailsScript script name)
    (parameters.find? fun parameter => parameter.name.isNamed name)

theorem Walk.names_values {script : Bytes} {offset : ℕ} {read : List (Parameter × ℕ × Param)}
    (hwalk : Walk script offset read) :
    (read.map Prod.snd).map (fun found => (nameAt script found.1, valueAt script found.2))
      = (read.map Prod.fst).map fun parameter => (parameter.name.bytes, parameter.value) := by
  induction hwalk with
  | done => rfl
  | @next offset parameter param behind rest hparam hname hsize hvalue hrest ih =>
    have hfirst : nameAt script offset = parameter.name.bytes := by
      rw [nameAt, hname, nameSize_bytes, Option.getD_some, List.take_left]
    have hsecond : valueAt script param = parameter.value := by
      rw [valueAt, hsize, hvalue]
    rw [List.map_cons, List.map_cons, List.map_cons, List.map_cons, ih, hfirst, hsecond]

theorem Written.reads {parameters : List Parameter} {script : Bytes}
    (hwritten : Written parameters script) : Reads parameters script := by
  obtain ⟨read, hwalk, hparameters⟩ := @Written.walk parameters script 0 hwritten (Nat.zero_le _)
  have hlength := hwalk.length_le
  have hvisit : visit script = (read.map Prod.snd, script.length) := hwalk.visitFrom_eq hlength
  constructor
  · exact hwalk.verifyFrom_eq
  · rw [hvisit, ← hparameters]
    exact hwalk.names_values
  · rw [hvisit]
  · intro code
    have hfound := hwalk.searchFrom_eq hlength (fitsCode_bytes code)
    rwa [hparameters] at hfound
  intro name
  have hfound := hwalk.searchFrom_eq hlength (fitsName_bytes name)
  rwa [hparameters] at hfound

/-- What the setters write one after the other is read as what they were given,
and the scripts that verify are made of parameters. -/
theorem details_scripts_grammar :
    (∀ parameters : List Parameter, (encodeAll parameters).length < 2 ^ 31 →
        Reads parameters (encodeAll parameters)) ∧ ∀ script : Bytes, verify script = true →
          ∃ parameters, Written parameters script ∧ Reads parameters script := by
  constructor
  · intro parameters hlength
    exact (written_encodeAll hlength).reads
  intro script hverify
  obtain ⟨parameters, hwritten⟩ := exists_written_of_verifyFrom (Nat.zero_le _) (by omega) hverify
  exact ⟨parameters, hwritten, Written.reads hwritten⟩

/-- A parameter of one byte, and a script with a size that takes three bytes where
one would do. -/
theorem details_scripts_grammar_short :
    Reads [⟨.special MC_ENT_SPRM_NAME, [0x41]⟩] (encodeAll [⟨.special MC_ENT_SPRM_NAME, [0x41]⟩])
      ∧ ∃ parameters, Written parameters [0, 1, 0xfd, 0, 0] ∧ Reads parameters [0, 1, 0xfd, 0, 0] :=
  ⟨details_scripts_grammar.1 _ (by decide), details_scripts_grammar.2 _ (by decide)⟩

theorem encodeAll_eq (parameters : List Parameter) : encodeAll parameters
      = (parameters.map fun parameter => (parameter.name.bytes, parameter.value)).flatMap
        fun bytes => bytes.1 ++ (putVarInt bytes.2.length ++ bytes.2) := by
  induction parameters with
  | nil => rfl
  | cons parameter rest ih =>
    rw [encodeAll_cons, encode_eq, ih]
    rfl

/-- The size of a value of `2 ^ 31` bytes is negative when it is cast. -/
theorem verify_long_value {value : Bytes} (hlength : value.length = 2 ^ 31) :
    verify (encodeAll [⟨.special MC_ENT_SPRM_NAME, value⟩]) = false := by
  have hscript : encodeAll [⟨.special MC_ENT_SPRM_NAME, value⟩]
      = 0 :: 1 :: (putVarInt (2 ^ 31) ++ value) := by
    rw [← hlength]
    exact List.append_nil _
  have hread : getVarInt (putVarInt (2 ^ 31) ++ value)
      = some (2 ^ 31, (putVarInt (2 ^ 31)).length) := getVarInt_putVarInt (by decide) value
  have hparam : getParam (0 :: 1 :: (putVarInt (2 ^ 31) ++ value)) 0 = none := by
    have hname : nameSize (0 :: 1 :: (putVarInt (2 ^ 31) ++ value)) = some 2 := rfl
    have hpos := (getVarInt_le hread).2
    have hpos' := (getVarInt_le hread).1
    rw [getParam, List.drop_zero, hname, Option.bind_eq_bind, Option.bind_some, if_neg]
    · rfl
    rw [List.length_cons, List.length_cons]
    omega
  rw [hscript, verify, List.length_cons, verifyFrom, hparam, if_neg]
  rw [List.length_cons]
  omega

/-- A value of `2 ^ 31` bytes is written but does not verify, and a script verifies
that the setters never write. -/
theorem details_scripts_exceed_grammar :
    verify (encodeAll [⟨.special MC_ENT_SPRM_NAME, List.replicate (2 ^ 31) 0⟩]) = false
      ∧ verify [0, 1, 0xfd, 0, 0] = true
      ∧ ∀ parameters, encodeAll parameters ≠ [0, 1, 0xfd, 0, 0] := by
  refine ⟨?_, by decide, ?_⟩
  · exact verify_long_value List.length_replicate
  intro parameters hencode
  have hlength : (encodeAll parameters).length < 2 ^ 31 := by
    rw [hencode]
    decide
  have hvisited := (written_encodeAll hlength).reads.visited
  rw [hencode] at hvisited
  rw [encodeAll_eq, ← hvisited] at hencode
  revert hencode
  decide

end Details

end Amberchain
