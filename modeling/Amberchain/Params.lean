import Mathlib.Data.Int.Basic

/-!
# Chain parameters and protocol features

The parameters that the permission, entity and transaction code reads, and the
protocol features that are derived from the protocol version.
-/

namespace Amberchain

/-- The values of `mc_MultichainParams` and the `MCP_*` globals that are set
from them. -/
structure ChainParams where
  protocolVersion : ℕ
  isProtocolMultichain : Bool
  anyoneCanAdmin : Bool
  anyoneCanMine : Bool
  anyoneCanConnect : Bool
  anyoneCanSend : Bool
  anyoneCanReceive : Bool
  anyoneCanCreate : Bool
  anyoneCanActivate : Bool
  anyoneCanIssue : Bool
  anyoneCanReceiveEmpty : Bool
  allowArbitraryOutputs : Bool
  allowMultisigOutputs : Bool
  allowP2shOutputs : Bool
  withNativeCurrency : Bool
  minimumPerOutput : ℤ
  stdOpDropCount : ℤ
  setupFirstBlocks : ℤ
  miningDiversity : ℤ
  adminConsensusUpgrade : ℤ
  adminConsensusAdmin : ℤ
  adminConsensusActivate : ℤ
  adminConsensusMine : ℤ
  adminConsensusCreate : ℤ
  adminConsensusIssue : ℤ
  supportMinerPrecheck : Bool
deriving DecidableEq

namespace ChainParams

def defaults : ChainParams where
  protocolVersion := 10010
  isProtocolMultichain := true
  anyoneCanAdmin := false
  anyoneCanMine := false
  anyoneCanConnect := true
  anyoneCanSend := true
  anyoneCanReceive := true
  anyoneCanCreate := false
  anyoneCanActivate := false
  anyoneCanIssue := true
  anyoneCanReceiveEmpty := true
  allowArbitraryOutputs := false
  allowMultisigOutputs := true
  allowP2shOutputs := true
  withNativeCurrency := false
  minimumPerOutput := 0
  stdOpDropCount := 5
  setupFirstBlocks := 60
  miningDiversity := 600000
  adminConsensusUpgrade := 300000
  adminConsensusAdmin := 600000
  adminConsensusActivate := 300000
  adminConsensusMine := 300000
  adminConsensusCreate := 0
  adminConsensusIssue := 0
  supportMinerPrecheck := true

variable (params : ChainParams)

/-- A feature that switches on with a protocol version and is off on chains
that do not run the MultiChain protocol. -/
def since (version : ℕ) : Bool :=
  params.isProtocolMultichain && decide (version ≤ params.protocolVersion)

def streams : Bool := params.since 10006

def opDropDetailsScripts : Bool := params.since 10007

def shortTxIDInTx : Bool := params.since 10007

def cachedInputScript : Bool := params.since 10007

def anyoneCanReceiveEmptyFeature : Bool :=
  params.since 10007 && params.anyoneCanReceiveEmpty

def fixedIn10007 : Bool := params.since 10007

def upgrades : Bool := params.since 10008

def fixedIn10008 : Bool := params.since 10008

def fixedDestinationExtraction : Bool :=
  !params.isProtocolMultichain || decide (10009 ≤ params.protocolVersion)

def fixedIn1000920001 : Bool :=
  !params.isProtocolMultichain || decide (10009 ≤ params.protocolVersion)

def fixedIn1001020003 : Bool :=
  !params.isProtocolMultichain ||
    if params.protocolVersion < 20000 then
      decide (10010 ≤ params.protocolVersion)
    else
      decide (20003 ≤ params.protocolVersion)

def verifySizeOfOpDropElements : Bool :=
  !params.isProtocolMultichain || decide (10003 ≤ params.protocolVersion)

end ChainParams

end Amberchain
