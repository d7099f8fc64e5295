import Amberchain.Base.LittleEndian
import Mathlib.Data.List.Basic

/-!
# The handshake of two peers

A connection is verified when each side has signed a nonce of the other with a key that may
connect: `version` and `verack` carry the nonces, `verack` and `verackack` the signatures.  The
chain is known and restricted, and the peer is not the seed node.
-/

namespace Amberchain.Handshake

abbrev Nonce := BitVec 64

def MIN_PEER_PROTO_VERSION : ℤ := 31800

def PROTOCOL_VERSION : ℤ := 70002

structure Signature (PubKey : Type) where
  key : PubKey
  parameterSetHash : Hash256
  nonce : Nonce
deriving DecidableEq

/-- `sSigScript`: a script that pushes a signature and a public key. -/
inductive SigScript (PubKey : Type) where
  /-- The first element cannot be read. -/
  | unreadable
  /-- The first element is empty, so that resizing it throws. -/
  | emptySignature
  /-- There is no valid public key. -/
  | withoutKey
  /-- Without a signature the bytes are not one of that key. -/
  | signed (signature : Option (Signature PubKey)) (key : PubKey)
deriving DecidableEq

/-- The messages; a hash of another size than 32 bytes is none. -/
inductive Message (PubKey : Type) where
  | version (nVersion : ℤ) (nonce : Option Nonce)
  /-- It ends behind the version, before it is complete. -/
  | shortVersion (nVersion : ℤ)
  | emptyVerack
  | verack (nonce : Nonce) (fullParameterSet : Bool) (parameterSetHash : Option Hash256)
      (sigScript : SigScript PubKey)
  /-- It ends before the signature, and perhaps before the nonce. -/
  | shortVerack (nonce : Option Nonce)
  | verackack (parameterSetHash : Option Hash256) (sigScript : SigScript PubKey)
  | shortVerackack
  /-- Every other command. -/
  | other
deriving DecidableEq

/-- What the node knows: the hash of the chain parameters with a nonce, the address of a key,
and `CanConnect`. -/
structure ConnectEnv (PubKey : Type) where
  verackHash : Nonce → Hash256
  keyId : PubKey → Hash160
  canConnect : Hash160 → Bool

/-- `CNode`.  The constructor leaves the nonces as they are in memory. -/
structure Connection where
  fInbound : Bool
  nVersion : ℤ
  nVersionNonceSent : Nonce
  nVersionNonceReceived : Nonce
  nVerackNonceSent : Nonce
  nVerackNonceReceived : Nonce
  fVerackackReceived : Bool
  fVerackackSent : Bool
  fParameterSetVerified : Bool
  fSuccessfullyConnected : Bool
  fDisconnect : Bool
  kAddrRemote : Hash160
  /-- The messages that are not part of the handshake and were processed. -/
  processed : ℕ
deriving DecidableEq

structure FreshNonces where
  version : Nonce
  verack : Nonce

variable {PubKey : Type} [DecidableEq PubKey] (env : ConnectEnv PubKey)

/-- How `ProcessMultichainVerack` ends: `return false`, `return false` without the flag to
disconnect, `return true`, or an exception. -/
inductive Verdict where
  | invalid
  | verified
  | proceed
  | thrown
deriving DecidableEq

/-- The signature in `ProcessMultichainVerack`. -/
def checkSigScript (conn : Connection) (fIsVerackack onlyCheckSignature : Bool) (nNonce : Nonce)
    (parameterSetHash : Hash256) : SigScript PubKey → Connection × Verdict
  | .unreadable => (conn, .invalid)
  | .emptySignature => (conn, .thrown)
  | .withoutKey => (conn, .invalid)
  | .signed signature key =>
    let conn := { conn with kAddrRemote := env.keyId key }
    let denied := fIsVerackack && !env.canConnect conn.kAddrRemote
    let conn := { conn with fVerackackReceived := conn.fVerackackReceived && !denied }
    if denied && onlyCheckSignature then (conn, .invalid)
    else if signature ≠ some ⟨key, parameterSetHash, nNonce⟩ then (conn, .invalid)
    else if onlyCheckSignature then (conn, .verified)
    else (conn, .proceed)

/-- `ProcessMultichainVerack` behind the nonces. -/
def checkVerack (conn : Connection) (fIsVerackack : Bool) (nNonce : Nonce)
    (parameterSetHash : Option Hash256) (sigScript : SigScript PubKey) : Connection × Verdict :=
  match parameterSetHash with
  | none => (conn, .invalid)
  | some hash =>
    if hash ≠ env.verackHash nNonce ∧ !fIsVerackack then (conn, .invalid)
    else
      checkSigScript env conn fIsVerackack (hash = env.verackHash nNonce && fIsVerackack) nNonce
        hash sigScript

/-- `ProcessMultichainVerack` for a verack. -/
def processVerack (conn : Connection) (nonce : Nonce) (parameterSetHash : Option Hash256)
    (sigScript : SigScript PubKey) : Connection × Verdict :=
  if conn.nVersionNonceSent = 1 then (conn, .invalid)
  else
    checkVerack env { conn with nVerackNonceReceived := nonce } false conn.nVersionNonceSent
      parameterSetHash sigScript

/-- `ProcessMultichainVerack` for a verackack. -/
def processVerackack (conn : Connection) (parameterSetHash : Option Hash256)
    (sigScript : SigScript PubKey) : Connection × Verdict :=
  if conn.nVerackNonceSent = 1 then (conn, .invalid)
  else
    checkVerack env { conn with fVerackackReceived := true } true conn.nVerackNonceSent
      parameterSetHash sigScript

def signNonce (key : PubKey) (nonce : Nonce) : SigScript PubKey :=
  .signed (some ⟨key, env.verackHash nonce, nonce⟩) key

/-- `PushMultiChainVerack` with a verack. -/
def pushVerack (key : PubKey) (fresh : Nonce) (conn : Connection) :
    Connection × List (Message PubKey) :=
  ({ conn with nVerackNonceSent := fresh },
    [.verack fresh conn.fVerackackReceived (some (env.verackHash conn.nVersionNonceReceived))
      (signNonce env key conn.nVersionNonceReceived)])

/-- `PushMultiChainVerack` with a verackack, which is sent once. -/
def pushVerackack (key : PubKey) (conn : Connection) : Connection × List (Message PubKey) :=
  if conn.fVerackackSent then (conn, [])
  else
    ({ conn with fVerackackSent := true },
      [.verackack (some (env.verackHash conn.nVerackNonceReceived))
        (signNonce env key conn.nVerackNonceReceived)])

/-- A connection with the messages sent on it and `nLocalHostNonce`. -/
structure Outcome (PubKey : Type) where
  conn : Connection
  sent : List (Message PubKey)
  localHostNonce : Nonce

def pushVersion (fresh : Nonce) (conn : Connection) : Connection × Message PubKey :=
  ({ conn with nVersionNonceSent := fresh }, .version PROTOCOL_VERSION (some fresh))

def processVersion (key : PubKey) (fresh : FreshNonces) (localHostNonce : Nonce)
    (conn : Connection) (nVersion : ℤ) (nonce : Option Nonce) : Outcome PubKey :=
  let nNonce := nonce.getD 1
  let conn := { conn with nVersion := nVersion }
  if nVersion < MIN_PEER_PROTO_VERSION then
    ⟨{ conn with fDisconnect := true }, [], localHostNonce⟩
  else if nNonce = localHostNonce ∧ 1 < nNonce then
    ⟨{ conn with fDisconnect := true }, [], localHostNonce⟩
  else
    let (conn, versions, localHostNonce) : Connection × List (Message PubKey) × Nonce :=
      if conn.fInbound then
        let pushed := pushVersion fresh.version conn
        (pushed.1, [pushed.2], fresh.version)
      else (conn, [], localHostNonce)
    let conn := { conn with nVersionNonceReceived := nNonce, fVerackackReceived := false }
    let pushed := pushVerack env key fresh.verack conn
    ⟨pushed.1, versions ++ pushed.2, localHostNonce⟩

/-- `ProcessMessage` for a verack. -/
def answerVerack (key : PubKey) (conn : Connection) (nonce : Nonce)
    (parameterSetHash : Option Hash256) (sigScript : SigScript PubKey) :
    Connection × List (Message PubKey) :=
  match processVerack env conn nonce parameterSetHash sigScript with
  | (conn, .proceed) => pushVerackack env key conn
  | (conn, .thrown) => (conn, [])
  | (conn, _) => ({ conn with fDisconnect := true }, [])

/-- `ProcessMessage` for a verackack. -/
def answerVerackack (key : PubKey) (fresh : Nonce) (conn : Connection)
    (parameterSetHash : Option Hash256) (sigScript : SigScript PubKey) :
    Connection × List (Message PubKey) :=
  match processVerackack env conn parameterSetHash sigScript with
  | (conn, .invalid) => ({ conn with fDisconnect := true }, [])
  | (conn, .verified) =>
    ({ conn with fParameterSetVerified := true, fSuccessfullyConnected := true }, [])
  | (conn, .proceed) => pushVerack env key fresh conn
  | (conn, .thrown) => (conn, [])

/-- `ProcessMessage`.  A version message comes first and only once, and what ends early throws
behind the fields that were read. -/
def processMessage (key : PubKey) (fresh : FreshNonces) (localHostNonce : Nonce)
    (conn : Connection) (message : Message PubKey) : Outcome PubKey :=
  match message with
  | .version nVersion nonce =>
    if conn.nVersion ≠ 0 then ⟨conn, [], localHostNonce⟩
    else processVersion env key fresh localHostNonce conn nVersion nonce
  | .shortVersion nVersion =>
    if conn.nVersion ≠ 0 then ⟨conn, [], localHostNonce⟩
    else ⟨{ conn with nVersion := nVersion }, [], localHostNonce⟩
  | message =>
    if conn.nVersion = 0 then ⟨conn, [], localHostNonce⟩
    else
      let answered : Connection × List (Message PubKey) :=
        match message with
        | .verack nonce _ hash sigScript => answerVerack env key conn nonce hash sigScript
        | .shortVerack nonce =>
          ({ conn with nVerackNonceReceived := nonce.getD conn.nVerackNonceReceived }, [])
        | .verackack hash sigScript => answerVerackack env key fresh.verack conn hash sigScript
        | .shortVerackack => ({ conn with fVerackackReceived := true }, [])
        | .other => ({ conn with processed := conn.processed + 1 }, [])
        | _ => (conn, [])
      ⟨answered.1, answered.2, localHostNonce⟩

def disconnectRemote (conn : Connection) : Bool :=
  conn.fDisconnect
    || (conn.fSuccessfullyConnected && conn.fParameterSetVerified
      && !env.canConnect conn.kAddrRemote)

/-- `ProcessMessages` with one message: nothing else than the handshake goes through before the
connection is verified. -/
def processMessages (key : PubKey) (fresh : FreshNonces) (localHostNonce : Nonce)
    (conn : Connection) (message : Message PubKey) : Outcome PubKey :=
  if disconnectRemote env conn then ⟨{ conn with fDisconnect := true }, [], localHostNonce⟩
  else if !conn.fParameterSetVerified && message = .other then ⟨conn, [], localHostNonce⟩
  else processMessage env key fresh localHostNonce conn message

structure Kept (conn next : Connection) : Prop where
  nVersion : next.nVersion = conn.nVersion
  nVersionNonceReceived : next.nVersionNonceReceived = conn.nVersionNonceReceived
  nVerackNonceSent : next.nVerackNonceSent = conn.nVerackNonceSent
  disconnect : next.fDisconnect = false → conn.fDisconnect = false

/-- The connection lets through what it did before. -/
structure SameTrust (conn next : Connection) : Prop where
  verified : next.fParameterSetVerified = conn.fParameterSetVerified
  processed : next.processed = conn.processed

structure Connection.IsOpen (conn : Connection) : Prop where
  nVersion : conn.nVersion ≠ 0
  connected : conn.fDisconnect = false

def Message.signatures : Message PubKey → List (Signature PubKey)
  | .verack _ _ _ (.signed signature _) => signature.toList
  | .verackack _ (.signed signature _) => signature.toList
  | _ => []

/-- What a node does with a message. -/
inductive Answer (key : PubKey) (fresh : Nonce) (conn : Connection) (message : Message PubKey) :
    Connection → List (Message PubKey) → Prop where
  /-- It sends nothing. -/
  | silent {next : Connection} (hkept : Kept conn next) (hsame : SameTrust conn next) :
      Answer key fresh conn message next []
  /-- It closes the connection. -/
  | closed {next : Connection} (hsame : SameTrust conn next) (hclosed : next.fDisconnect = true) :
      Answer key fresh conn message next []
  /-- It takes a version message for complete that is not. -/
  | short {next : Connection} {nVersion : ℤ} (hmessage : message = .shortVersion nVersion) :
      Answer key fresh conn message next []
  /-- It signs the nonce of a version message, with a nonce of its own. -/
  | version {next : Connection} {sent : List (Message PubKey)} {nVersion : ℤ}
      {nonce : Option Nonce} (hmessage : message = .version nVersion nonce)
      (hsame : SameTrust conn next) (hreceived : next.nVersionNonceReceived = nonce.getD 1)
      (hverack : next.nVerackNonceSent = fresh)
      (hsigned : ∀ m ∈ sent, ∀ s ∈ m.signatures, s.nonce = nonce.getD 1) :
      Answer key fresh conn message next sent
  /-- It signs the nonce of a verack. -/
  | verack {next : Connection} {sent : List (Message PubKey)} {nonce : Nonce} {full : Bool}
      {hash : Option Hash256} {sigScript : SigScript PubKey}
      (hmessage : message = .verack nonce full hash sigScript) (hkept : Kept conn next)
      (hsame : SameTrust conn next) (hsigned : ∀ m ∈ sent, ∀ s ∈ m.signatures, s.nonce = nonce) :
      Answer key fresh conn message next sent
  /-- It signs the nonce of the version message once more, with a new nonce of its own. -/
  | again {next : Connection} {sent : List (Message PubKey)} (hopen : conn.IsOpen)
      (hkept : Kept conn { next with nVerackNonceSent := conn.nVerackNonceSent })
      (hsame : SameTrust conn next) (hverack : next.nVerackNonceSent = fresh)
      (hsigned : ∀ m ∈ sent, ∀ s ∈ m.signatures, s.nonce = conn.nVersionNonceReceived) :
      Answer key fresh conn message next sent
  /-- It takes the connection for verified. -/
  | verified {next : Connection} {hash : Hash256} {signer : PubKey} (hopen : conn.IsOpen)
      (hmessage : message = .verackack (some hash)
        (.signed (some ⟨signer, hash, conn.nVerackNonceSent⟩) signer))
      (hpermitted : env.canConnect (env.keyId signer) = true) (hkept : Kept conn next) :
      Answer key fresh conn message next []
  /-- It processes another message, on a verified connection. -/
  | other {next : Connection} (hverified : conn.fParameterSetVerified = true)
      (hkept : Kept conn next) : Answer key fresh conn message next []

section Answers

variable {env} {conn : Connection} {key : PubKey}

omit [DecidableEq PubKey] in
theorem signatures_signNonce {m : Message PubKey} {nonce verackNonce : Nonce} {full : Bool}
    {hash : Option Hash256} (hmem : m = .verack verackNonce full hash (signNonce env key nonce)
      ∨ m = .verackack hash (signNonce env key nonce)) : ∀ s ∈ m.signatures, s.nonce = nonce := by
  intro s hs
  obtain rfl | rfl := hmem
  · obtain rfl := List.mem_singleton.mp hs
    rfl
  obtain rfl := List.mem_singleton.mp hs
  rfl

theorem Kept.refl (conn : Connection) : Kept conn conn :=
  ⟨rfl, rfl, rfl, id⟩

theorem SameTrust.refl (conn : Connection) : SameTrust conn conn :=
  ⟨rfl, rfl⟩

theorem checkVerack_kept (conn : Connection) (fIsVerackack : Bool) (nNonce : Nonce)
    (hash : Option Hash256) (sigScript : SigScript PubKey) :
    Kept conn (checkVerack env conn fIsVerackack nNonce hash sigScript).1
      ∧ SameTrust conn (checkVerack env conn fIsVerackack nNonce hash sigScript).1
      ∧ (checkVerack env conn fIsVerackack nNonce hash sigScript).1.nVerackNonceReceived
        = conn.nVerackNonceReceived := by
  have hrefl : Kept conn conn ∧ SameTrust conn conn
      ∧ conn.nVerackNonceReceived = conn.nVerackNonceReceived :=
    ⟨Kept.refl conn, SameTrust.refl conn, rfl⟩
  cases hash with
  | none => exact hrefl
  | some hash =>
    rw [checkVerack]
    split
    · exact hrefl
    cases sigScript with
    | unreadable => exact hrefl
    | emptySignature => exact hrefl
    | withoutKey => exact hrefl
    | signed signature signer =>
      rw [checkSigScript]
      split
      · exact ⟨⟨rfl, rfl, rfl, id⟩, ⟨rfl, rfl⟩, rfl⟩
      split
      · exact ⟨⟨rfl, rfl, rfl, id⟩, ⟨rfl, rfl⟩, rfl⟩
      split
      · exact ⟨⟨rfl, rfl, rfl, id⟩, ⟨rfl, rfl⟩, rfl⟩
      exact ⟨⟨rfl, rfl, rfl, id⟩, ⟨rfl, rfl⟩, rfl⟩

/-- A connection is verified by a signature of the nonce with a key that may connect. -/
theorem checkVerack_verified {fIsVerackack : Bool} {nNonce : Nonce} {hash : Option Hash256}
    {sigScript : SigScript PubKey}
    (hverified : (checkVerack env conn fIsVerackack nNonce hash sigScript).2 = .verified) :
    fIsVerackack = true ∧ ∃ found signer, hash = some found
      ∧ sigScript = .signed (some ⟨signer, found, nNonce⟩) signer
      ∧ env.canConnect (env.keyId signer) = true := by
  cases hash with
  | none => cases hverified
  | some hash =>
    rw [checkVerack] at hverified
    split at hverified
    · cases hverified
    cases sigScript with
    | unreadable => cases hverified
    | emptySignature => cases hverified
    | withoutKey => cases hverified
    | signed signature signer =>
      rw [checkSigScript] at hverified
      split at hverified
      · cases hverified
      rename_i hdenied
      split at hverified
      · cases hverified
      rename_i hsignature
      split at hverified
      · rename_i honly
        have hack := (Bool.and_eq_true_iff.mp honly).2
        refine ⟨hack, hash, signer, rfl, ?_, ?_⟩
        · rw [not_not.mp hsignature]
        rw [honly, hack] at hdenied
        simpa using hdenied
      cases hverified

theorem processVerack_spec (conn : Connection) (nonce : Nonce) (hash : Option Hash256)
    (sigScript : SigScript PubKey) : Kept conn (processVerack env conn nonce hash sigScript).1
      ∧ SameTrust conn (processVerack env conn nonce hash sigScript).1
      ∧ (processVerack env conn nonce hash sigScript).2 ≠ .verified
      ∧ ((processVerack env conn nonce hash sigScript).2 = .proceed →
        (processVerack env conn nonce hash sigScript).1.nVerackNonceReceived = nonce) := by
  rw [processVerack]
  split
  · exact ⟨Kept.refl conn, SameTrust.refl conn, nofun, nofun⟩
  obtain ⟨hkept, hsame, hreceived⟩ := @checkVerack_kept _ _ env
    { conn with nVerackNonceReceived := nonce } false conn.nVersionNonceSent hash sigScript
  refine ⟨⟨hkept.nVersion, hkept.nVersionNonceReceived, hkept.nVerackNonceSent,
    hkept.disconnect⟩, ⟨hsame.verified, hsame.processed⟩, ?_, fun _ => hreceived⟩
  intro hverified
  exact absurd (checkVerack_verified hverified).1 Bool.false_ne_true

theorem processVerackack_spec (conn : Connection) (hash : Option Hash256)
    (sigScript : SigScript PubKey) : Kept conn (processVerackack env conn hash sigScript).1
      ∧ SameTrust conn (processVerackack env conn hash sigScript).1
      ∧ ((processVerackack env conn hash sigScript).2 = .verified →
        ∃ found signer, hash = some found
          ∧ sigScript = .signed (some ⟨signer, found, conn.nVerackNonceSent⟩) signer
          ∧ env.canConnect (env.keyId signer) = true) := by
  rw [processVerackack]
  split
  · exact ⟨Kept.refl conn, SameTrust.refl conn, nofun⟩
  obtain ⟨hkept, hsame, -⟩ := @checkVerack_kept _ _ env
    { conn with fVerackackReceived := true } true conn.nVerackNonceSent hash sigScript
  exact ⟨⟨hkept.nVersion, hkept.nVersionNonceReceived, hkept.nVerackNonceSent,
    hkept.disconnect⟩, ⟨hsame.verified, hsame.processed⟩,
    fun hverified => (checkVerack_verified hverified).2⟩

theorem answerVerack_answer (fresh : Nonce) (conn : Connection) (nonce : Nonce) (full : Bool)
    (hash : Option Hash256) (sigScript : SigScript PubKey) :
    Answer env key fresh conn (.verack nonce full hash sigScript)
      (answerVerack env key conn nonce hash sigScript).1
      (answerVerack env key conn nonce hash sigScript).2 := by
  have hspec := @processVerack_spec _ _ env conn nonce hash sigScript
  rw [answerVerack]
  generalize processVerack env conn nonce hash sigScript = answered at hspec ⊢
  obtain ⟨next, verdict⟩ := answered
  obtain ⟨hkept, hsame, hverified, hreceived⟩ := hspec
  cases verdict with
  | proceed =>
    rw [← hreceived rfl]
    dsimp only
    rw [pushVerackack]
    split
    · exact .silent hkept hsame
    exact .verack rfl ⟨hkept.nVersion, hkept.nVersionNonceReceived, hkept.nVerackNonceSent,
      hkept.disconnect⟩ ⟨hsame.verified, hsame.processed⟩ fun m hm =>
        @signatures_signNonce _ env key m _ 0 false _ (.inr (List.mem_singleton.mp hm))
  | thrown => exact .silent hkept hsame
  | invalid => exact .closed ⟨hsame.verified, hsame.processed⟩ rfl
  | verified => exact absurd rfl hverified

theorem answerVerackack_answer (fresh : Nonce) (conn : Connection) (hash : Option Hash256)
    (sigScript : SigScript PubKey) (hopen : conn.IsOpen) :
    Answer env key fresh conn (.verackack hash sigScript)
      (answerVerackack env key fresh conn hash sigScript).1
      (answerVerackack env key fresh conn hash sigScript).2 := by
  have hspec := @processVerackack_spec _ _ env conn hash sigScript
  rw [answerVerackack]
  generalize processVerackack env conn hash sigScript = answered at hspec ⊢
  obtain ⟨next, verdict⟩ := answered
  obtain ⟨hkept, hsame, hverified⟩ := hspec
  cases verdict with
  | invalid => exact .closed ⟨hsame.verified, hsame.processed⟩ rfl
  | verified =>
    obtain ⟨-, signer, rfl, rfl, hpermitted⟩ := hverified rfl
    exact .verified hopen rfl hpermitted ⟨hkept.nVersion, hkept.nVersionNonceReceived,
      hkept.nVerackNonceSent, hkept.disconnect⟩
  | proceed =>
    refine .again hopen ⟨hkept.nVersion, hkept.nVersionNonceReceived, rfl, hkept.disconnect⟩
      ⟨hsame.verified, hsame.processed⟩ rfl ?_
    intro m hm
    rw [← hkept.nVersionNonceReceived]
    exact signatures_signNonce (.inl (List.mem_singleton.mp hm))
  | thrown => exact .silent hkept hsame

omit [DecidableEq PubKey] in
/-- The first version message closes the connection, or its nonce is signed. -/
theorem processVersion_answer (fresh : FreshNonces) (localHostNonce : Nonce) (conn : Connection)
    (nVersion : ℤ) (nonce : Option Nonce) :
    Answer env key fresh.verack conn (.version nVersion nonce)
      (processVersion env key fresh localHostNonce conn nVersion nonce).conn
      (processVersion env key fresh localHostNonce conn nVersion nonce).sent := by
  rw [processVersion]
  split
  · exact .closed ⟨rfl, rfl⟩ rfl
  split
  · exact .closed ⟨rfl, rfl⟩ rfl
  cases hinbound : conn.fInbound with
  | false =>
    refine .version rfl ⟨rfl, rfl⟩ rfl rfl ?_
    intro m hm
    exact signatures_signNonce (.inl (List.mem_singleton.mp hm))
  | true =>
    refine .version rfl ⟨rfl, rfl⟩ rfl rfl ?_
    intro m hm
    obtain rfl | hm := List.mem_cons.mp hm
    · exact fun s hs => absurd hs (List.not_mem_nil)
    exact signatures_signNonce (.inl (List.mem_singleton.mp hm))

/-- What `ProcessMessages` does, one case for each kind of answer. -/
theorem processMessages_answer (fresh : FreshNonces) (localHostNonce : Nonce)
    (conn : Connection) (message : Message PubKey) : Answer env key fresh.verack conn message
      (processMessages env key fresh localHostNonce conn message).conn
      (processMessages env key fresh localHostNonce conn message).sent := by
  have hsilent : Answer env key fresh.verack conn message conn [] :=
    .silent (Kept.refl conn) (SameTrust.refl conn)
  rw [processMessages]
  split
  · exact .closed ⟨rfl, rfl⟩ rfl
  rename_i hremote
  have hconnected : conn.fDisconnect = false := by
    cases hdisconnect : conn.fDisconnect with
    | false => rfl
    | true => exact absurd (by rw [disconnectRemote, hdisconnect, Bool.true_or]) hremote
  split
  · exact hsilent
  rename_i hgate
  rw [processMessage.eq_def]
  cases message with
  | version nVersion nonce =>
    dsimp only
    split
    · exact hsilent
    · exact processVersion_answer fresh localHostNonce conn nVersion nonce
  | shortVersion nVersion =>
    dsimp only
    split
    · exact hsilent
    · exact .short rfl
  | emptyVerack =>
    dsimp only
    split
    · exact hsilent
    · exact hsilent
  | verack nonce full hash sigScript =>
    dsimp only
    split
    · exact hsilent
    · exact answerVerack_answer fresh.verack conn nonce full hash sigScript
  | shortVerack nonce =>
    dsimp only
    split
    · exact hsilent
    · exact .silent ⟨rfl, rfl, rfl, id⟩ ⟨rfl, rfl⟩
  | verackack hash sigScript =>
    dsimp only
    split
    · exact hsilent
    rename_i hopen
    exact answerVerackack_answer fresh.verack conn hash sigScript ⟨hopen, hconnected⟩
  | shortVerackack =>
    dsimp only
    split
    · exact hsilent
    · exact .silent ⟨rfl, rfl, rfl, id⟩ ⟨rfl, rfl⟩
  | other =>
    dsimp only
    split
    · exact hsilent
    exact .other (by simpa using hgate) ⟨rfl, rfl, rfl, id⟩

end Answers

end Amberchain.Handshake
