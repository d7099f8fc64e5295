import Amberchain.Base.LittleEndian
import Mathlib.Data.List.Nodup

/-!
# The parameters of a chain

The table of the parameters, in the order in which their values are hashed.  The texts that
only the configuration file shows are left out.
-/

namespace Amberchain.ParamSet

def cstr (text : String) : Bytes :=
  text.toList.map fun char => BitVec.ofNat 8 char.toNat

/-- `MC_PRM_DATA_TYPE_MASK` -/
inductive DataType where
  | binary
  | string
  | boolean
  | int32
  | int64
  | double
  | uint32
deriving DecidableEq

/-- `MC_PRM_SOURCE_MASK` -/
inductive Source where
  | comment
  | user
  | generated
  | calculated
deriving DecidableEq

/-- `mc_OneMultichainParam` -/
structure OneMultichainParam where
  name : String
  dataType : DataType
  source : Source
  clone : Bool := false
  special : Bool := false
  noHash : Bool := false
  minimal : Bool := false
  decimal : Bool := false
  maxStringSize : ℤ := -1
  defaultIntegerValue : ℤ := 0
  minIntegerValue : ℤ := 0
  maxIntegerValue : ℤ := 0
  /-- The bits of `m_DefaultDoubleValue`. -/
  defaultDoubleValue : BitVec 64 := 0
  protocolVersion : ℤ
  removed : ℤ := 0
deriving DecidableEq

/-- The name as it stands in the data, without the terminator. -/
def OneMultichainParam.key (param : OneMultichainParam) : Bytes :=
  cstr param.name

def OneMultichainParam.isRelevant (param : OneMultichainParam) (version : ℤ) : Bool :=
  !(version < param.protocolVersion) && !(0 < param.removed && param.removed ≤ version)

def maxParamNameSize : ℕ := 31

def paramSizeBytes : ℕ := 2

/-- The room that `Init` counts for the value of a parameter. -/
def OneMultichainParam.room (param : OneMultichainParam) : ℕ :=
  match param.dataType with
  | .binary => param.maxStringSize.toNat
  | .string => param.maxStringSize.toNat + 1
  | .boolean => 1
  | .int32 => 4
  | .int64 => 8
  | .double => 8
  | .uint32 => 4

def multichainParamArray : List OneMultichainParam :=
  [ { name := "chainprotocol", dataType := .string, source := .user, clone := true,
      special := true, maxStringSize := 16, protocolVersion := 10001 },
    { name := "chaindescription", dataType := .string, source := .user, clone := true,
      special := true, maxStringSize := 256, protocolVersion := 10001 },
    { name := "rootstreamname", dataType := .string, source := .user, clone := true,
      special := true, maxStringSize := 256, protocolVersion := 10006 },
    { name := "rootstreamopen", dataType := .boolean, source := .user, clone := true,
      protocolVersion := 10006 },
    { name := "chainistestnet", dataType := .boolean, source := .user, clone := true,
      protocolVersion := 10001 },
    { name := "targetblocktime", dataType := .uint32, source := .user, clone := true,
      defaultIntegerValue := 15, minIntegerValue := 2, maxIntegerValue := 86400,
      protocolVersion := 10001 },
    { name := "maximumblocksize", dataType := .uint32, source := .user, clone := true,
      defaultIntegerValue := 8388608, minIntegerValue := 1000,
      maxIntegerValue := 1000000000, protocolVersion := 10001 },
    { name := "defaultnetworkport", dataType := .uint32, source := .generated, clone := true,
      defaultIntegerValue := 8571, minIntegerValue := 1024, maxIntegerValue := 65535,
      protocolVersion := 10001 },
    { name := "defaultrpcport", dataType := .uint32, source := .generated, clone := true,
      minimal := true, defaultIntegerValue := 8570, minIntegerValue := 1024,
      maxIntegerValue := 65535, protocolVersion := 10001 },
    { name := "anyonecanconnect", dataType := .boolean, source := .user, clone := true,
      defaultIntegerValue := 1, protocolVersion := 10001 },
    { name := "anyonecansend", dataType := .boolean, source := .user, clone := true,
      defaultIntegerValue := 1, protocolVersion := 10001 },
    { name := "anyonecanreceive", dataType := .boolean, source := .user, clone := true,
      defaultIntegerValue := 1, protocolVersion := 10001 },
    { name := "anyonecanreceiveempty", dataType := .boolean, source := .user, clone := true,
      defaultIntegerValue := 1, protocolVersion := 10007 },
    { name := "anyonecancreate", dataType := .boolean, source := .user, clone := true,
      protocolVersion := 10006 },
    { name := "anyonecanissue", dataType := .boolean, source := .user, clone := true,
      defaultIntegerValue := 1, protocolVersion := 10001 },
    { name := "anyonecanmine", dataType := .boolean, source := .user, clone := true,
      protocolVersion := 10001 },
    { name := "anyonecanactivate", dataType := .boolean, source := .user, clone := true,
      protocolVersion := 10003 },
    { name := "anyonecanadmin", dataType := .boolean, source := .user, clone := true,
      protocolVersion := 10001 },
    { name := "supportminerprecheck", dataType := .boolean, source := .user, clone := true,
      defaultIntegerValue := 1, protocolVersion := 10007 },
    { name := "allowarbitraryoutputs", dataType := .boolean, source := .user, clone := true,
      protocolVersion := 10009 },
    { name := "allowp2shoutputs", dataType := .boolean, source := .user, clone := true,
      defaultIntegerValue := 1, protocolVersion := 10001 },
    { name := "allowmultisigoutputs", dataType := .boolean, source := .user, clone := true,
      defaultIntegerValue := 1, protocolVersion := 10001 },
    { name := "setupfirstblocks", dataType := .uint32, source := .user, clone := true,
      defaultIntegerValue := 60, minIntegerValue := 1, maxIntegerValue := 31536000,
      protocolVersion := 10001 },
    { name := "miningdiversity", dataType := .uint32, source := .user, clone := true,
      decimal := true, defaultIntegerValue := 600000, maxIntegerValue := 1000000,
      protocolVersion := 10001 },
    { name := "adminconsensusupgrade", dataType := .uint32, source := .user, clone := true,
      decimal := true, defaultIntegerValue := 300000, maxIntegerValue := 1000000,
      protocolVersion := 10008 },
    { name := "adminconsensusadmin", dataType := .uint32, source := .user, clone := true,
      decimal := true, defaultIntegerValue := 600000, maxIntegerValue := 1000000,
      protocolVersion := 10001 },
    { name := "adminconsensusactivate", dataType := .uint32, source := .user, clone := true,
      decimal := true, defaultIntegerValue := 300000, maxIntegerValue := 1000000,
      protocolVersion := 10003 },
    { name := "adminconsensusmine", dataType := .uint32, source := .user, clone := true,
      decimal := true, defaultIntegerValue := 300000, maxIntegerValue := 1000000,
      protocolVersion := 10001 },
    { name := "adminconsensuscreate", dataType := .uint32, source := .user, clone := true,
      decimal := true, maxIntegerValue := 1000000, protocolVersion := 10006 },
    { name := "adminconsensusissue", dataType := .uint32, source := .user, clone := true,
      decimal := true, maxIntegerValue := 1000000, protocolVersion := 10003 },
    { name := "lockadminminerounds", dataType := .uint32, source := .user, clone := true,
      noHash := true, defaultIntegerValue := 10, maxIntegerValue := 10000,
      protocolVersion := 10007 },
    { name := "miningrequirespeers", dataType := .boolean, source := .user, clone := true,
      noHash := true, defaultIntegerValue := 1, protocolVersion := 10001 },
    { name := "mineemptyrounds", dataType := .int32, source := .user, clone := true,
      noHash := true, decimal := true, defaultIntegerValue := 10000000,
      minIntegerValue := -1000000, maxIntegerValue := 1000000000,
      protocolVersion := 10007 },
    { name := "miningturnover", dataType := .uint32, source := .user, clone := true,
      noHash := true, decimal := true, defaultIntegerValue := 500000,
      maxIntegerValue := 1000000, protocolVersion := 10007 },
    { name := "firstblockreward", dataType := .int64, source := .user, clone := true,
      defaultIntegerValue := 200000000000000000, minIntegerValue := -1,
      maxIntegerValue := 1000000000000000000, protocolVersion := 10002 },
    { name := "initialblockreward", dataType := .int64, source := .user, clone := true,
      maxIntegerValue := 1000000000000000000, protocolVersion := 10001 },
    { name := "rewardhalvinginterval", dataType := .uint32, source := .user, clone := true,
      defaultIntegerValue := 52560000, minIntegerValue := 60,
      maxIntegerValue := 1000000000, protocolVersion := 10001 },
    { name := "rewardspendabledelay", dataType := .uint32, source := .user, clone := true,
      defaultIntegerValue := 1, minIntegerValue := 1, maxIntegerValue := 100000,
      protocolVersion := 10001 },
    { name := "minimumperoutput", dataType := .int64, source := .user, clone := true,
      minIntegerValue := -1, maxIntegerValue := 1000000000, protocolVersion := 10001 },
    { name := "maximumperoutput", dataType := .int64, source := .user, clone := true,
      defaultIntegerValue := 200000000000000000, maxIntegerValue := 1000000000000000000,
      protocolVersion := 10001 },
    { name := "minimumrelayfee", dataType := .int64, source := .user, clone := true,
      maxIntegerValue := 1000000000, protocolVersion := 10001 },
    { name := "nativecurrencymultiple", dataType := .int64, source := .user, clone := true,
      defaultIntegerValue := 100000000, maxIntegerValue := 1000000000,
      protocolVersion := 10001 },
    { name := "skippowcheck", dataType := .boolean, source := .user, clone := true,
      protocolVersion := 10001 },
    { name := "powminimumbits", dataType := .uint32, source := .user, clone := true,
      defaultIntegerValue := 8, minIntegerValue := 1, maxIntegerValue := 32,
      protocolVersion := 10001 },
    { name := "targetadjustfreq", dataType := .int32, source := .user, clone := true,
      defaultIntegerValue := -1, minIntegerValue := -1, maxIntegerValue := 4294967295,
      protocolVersion := 10001 },
    { name := "allowmindifficultyblocks", dataType := .boolean, source := .user,
      clone := true, protocolVersion := 10001 },
    { name := "onlyacceptstdtxs", dataType := .boolean, source := .user, clone := true,
      defaultIntegerValue := 1, protocolVersion := 10001 },
    { name := "maxstdtxsize", dataType := .uint32, source := .user, clone := true,
      defaultIntegerValue := 100000000, minIntegerValue := 1024,
      maxIntegerValue := 100000000, protocolVersion := 10001 },
    { name := "maxstdopreturnscount", dataType := .uint32, source := .user, clone := true,
      defaultIntegerValue := 10, maxIntegerValue := 1024, protocolVersion := 10006 },
    { name := "maxstdopreturnsize", dataType := .uint32, source := .user, clone := true,
      defaultIntegerValue := 2097152, maxIntegerValue := 67108864,
      protocolVersion := 10001 },
    { name := "maxstdopdropscount", dataType := .int64, source := .user, clone := true,
      defaultIntegerValue := 5, maxIntegerValue := 100, protocolVersion := 10001 },
    { name := "maxstdelementsize", dataType := .int64, source := .user, clone := true,
      defaultIntegerValue := 8192, minIntegerValue := 128, maxIntegerValue := 32768,
      protocolVersion := 10003 },
    { name := "maxstdopdropsize", dataType := .int64, source := .user, clone := true,
      defaultIntegerValue := 64, maxIntegerValue := 32768, protocolVersion := 10001,
      removed := 10003 },
    { name := "chainname", dataType := .string, source := .generated, minimal := true,
      maxStringSize := 32, protocolVersion := 10001 },
    { name := "protocolversion", dataType := .uint32, source := .generated,
      protocolVersion := 10001 },
    { name := "networkmessagestart", dataType := .binary, source := .generated,
      minimal := true, maxStringSize := 4, protocolVersion := 10001 },
    { name := "addresspubkeyhashversion", dataType := .binary, source := .generated,
      minimal := true, maxStringSize := 4, protocolVersion := 10001 },
    { name := "addressscripthashversion", dataType := .binary, source := .generated,
      maxStringSize := 4, protocolVersion := 10001 },
    { name := "privatekeyversion", dataType := .binary, source := .generated,
      maxStringSize := 4, protocolVersion := 10001 },
    { name := "addresschecksumvalue", dataType := .binary, source := .generated,
      minimal := true, maxStringSize := 4, protocolVersion := 10001 },
    { name := "genesispubkey", dataType := .binary, source := .calculated,
      maxStringSize := 65, protocolVersion := 10001 },
    { name := "genesisversion", dataType := .uint32, source := .calculated,
      defaultIntegerValue := 1, maxIntegerValue := -1, protocolVersion := 10001 },
    { name := "genesistimestamp", dataType := .uint32, source := .calculated,
      protocolVersion := 10001 },
    { name := "genesisnbits", dataType := .uint32, source := .calculated,
      protocolVersion := 10001 },
    { name := "genesisnonce", dataType := .uint32, source := .calculated,
      protocolVersion := 10001 },
    { name := "genesispubkeyhash", dataType := .binary, source := .calculated,
      maxStringSize := 20, protocolVersion := 10001 },
    { name := "genesisopreturnscript", dataType := .binary, source := .calculated,
      maxStringSize := 300, protocolVersion := 10001, removed := 10006 },
    { name := "genesishash", dataType := .binary, source := .calculated,
      maxStringSize := 32, protocolVersion := 10001 },
    { name := "chainparamshash", dataType := .binary, source := .calculated, noHash := true,
      maxStringSize := 32, protocolVersion := 10001 } ]

/-- `mc_MapStringIndex::Get` on the names, without the answer -1. -/
def index (key : Bytes) : Option ℕ :=
  multichainParamArray.findIdx? fun param => param.key = key

theorem keys_nodup : (multichainParamArray.map OneMultichainParam.key).Nodup := by
  decide +kernel

variable {param : OneMultichainParam}

theorem key_ne_nil (hmem : param ∈ multichainParamArray) : param.key ≠ [] := by
  revert param
  decide +kernel

theorem zero_notMem_key (hmem : param ∈ multichainParamArray) : (0 : Byte) ∉ param.key := by
  revert param
  decide +kernel

theorem index_eq_some_iff {key : Bytes} {i : ℕ} :
    index key = some i ↔ ∃ param, multichainParamArray[i]? = some param ∧ param.key = key := by
  rw [index, List.findIdx?_eq_some_iff_getElem]
  constructor
  · rintro ⟨hi, hkey, -⟩
    exact ⟨_, List.getElem?_eq_getElem hi, of_decide_eq_true hkey⟩
  rintro ⟨param, hget, rfl⟩
  obtain ⟨hi, hparam⟩ := List.getElem?_eq_some_iff.mp hget
  refine ⟨hi, decide_eq_true (by rw [hparam]), ?_⟩
  intro j hlt hkey
  -- An earlier parameter of the same name would be the same parameter.
  have hi' : i < (multichainParamArray.map OneMultichainParam.key).length := by
    rwa [List.length_map]
  have hsame : (multichainParamArray.map OneMultichainParam.key)[j]
      = (multichainParamArray.map OneMultichainParam.key)[i] := by
    rw [List.getElem_map, List.getElem_map, hparam]
    exact of_decide_eq_true hkey
  have heq := keys_nodup.getElem_inj_iff.mp hsame
  omega

theorem index_key {i : ℕ}
    (hget : multichainParamArray[i]? = some param) : index param.key = some i :=
  index_eq_some_iff.mpr ⟨param, hget, rfl⟩

end Amberchain.ParamSet
