import Amberchain.Handshake.Messages
import Mathlib.Tactic.DeriveFintype

/-!
# Nobody is verified without a key that may connect

Honest nodes and an attacker exchange the messages of the handshake.  The attacker sends what he
likes on every connection, with every signature he has seen and with those of his own keys, none
of which may connect.  A node signs every nonce that it gets.  So an attacker who passes a nonce
on, to another node or to the same one on a second connection, gets the signature that he needs;
otherwise no connection of his is verified.
-/

namespace Amberchain.Handshake

/-- The other end of a connection. -/
inductive Peer (NodeId : Type) where
  | attacker
  | node (id : NodeId)
deriving DecidableEq

/-- An honest node, with its connections in the order they were made. -/
structure Node (NodeId : Type) where
  canConnect : Hash160 → Bool
  localHostNonce : Nonce
  connections : List (Peer NodeId × Connection)

structure Network (NodeId PubKey : Type) where
  nodes : NodeId → Node NodeId
  sent : List (Message PubKey)
  delivered : List (Message PubKey)

structure Setup (PubKey : Type) where
  verackHash : Nonce → Hash256
  keyId : PubKey → Hash160
  attackerKey : PubKey → Bool

/-- The bytes that the constructor of a connection finds in memory. -/
structure Memory where
  nVersionNonceSent : Nonce
  nVersionNonceReceived : Nonce
  nVerackNonceSent : Nonce
  nVerackNonceReceived : Nonce
  kAddrRemote : Hash160

/-- The constructor of `CNode`. -/
def newConnection (fInbound : Bool) (memory : Memory) : Connection :=
  { fInbound := fInbound
    nVersion := 0
    nVersionNonceSent := memory.nVersionNonceSent
    nVersionNonceReceived := memory.nVersionNonceReceived
    nVerackNonceSent := memory.nVerackNonceSent
    nVerackNonceReceived := memory.nVerackNonceReceived
    fVerackackReceived := false
    fVerackackSent := false
    fParameterSetVerified := false
    fSuccessfullyConnected := false
    fDisconnect := false
    kAddrRemote := memory.kAddrRemote
    processed := 0 }

inductive Event (NodeId PubKey : Type) where
  /-- A node accepts a connection. -/
  | accept (id : NodeId) (peer : Peer NodeId) (memory : Memory)
  /-- A node makes a connection and sends its version. -/
  | connect (id : NodeId) (peer : Peer NodeId) (memory : Memory) (nonce : Nonce)
  /-- A message reaches a node, which has a key to sign with and nonces at hand. -/
  | deliver (id : NodeId) (index : ℕ) (message : Message PubKey) (key : PubKey)
      (fresh : FreshNonces)
  /-- The permissions of a node change. -/
  | permit (id : NodeId) (canConnect : Hash160 → Bool)
  /-- A node closes a connection. -/
  | close (id : NodeId) (index : ℕ)

variable {NodeId PubKey : Type} [DecidableEq NodeId] [DecidableEq PubKey] (setup : Setup PubKey)

def Setup.env (canConnect : Hash160 → Bool) : ConnectEnv PubKey :=
  ⟨setup.verackHash, setup.keyId, canConnect⟩

/-- Node `id` becomes `node` by the messages `delivered`, and it sends the messages `sent`. -/
def Network.update (net : Network NodeId PubKey) (id : NodeId) (node : Node NodeId)
    (delivered sent : List (Message PubKey)) : Network NodeId PubKey :=
  ⟨Function.update net.nodes id node, sent ++ net.sent, delivered ++ net.delivered⟩

def Network.apply (net : Network NodeId PubKey) : Event NodeId PubKey → Network NodeId PubKey
  | .accept id peer memory =>
    let node := net.nodes id
    net.update id
      { node with connections := node.connections ++ [(peer, newConnection true memory)] } [] []
  | .connect id peer memory nonce =>
    let node := net.nodes id
    let pushed : Connection × Message PubKey := pushVersion nonce (newConnection false memory)
    net.update id
      { node with
        localHostNonce := nonce
        connections := node.connections ++ [(peer, pushed.1)] } [] [pushed.2]
  | .deliver id index message key fresh =>
    let node := net.nodes id
    match node.connections[index]? with
    | none => net
    | some (peer, conn) =>
      let out :=
        processMessages (setup.env node.canConnect) key fresh node.localHostNonce conn message
      net.update id
        { node with
          localHostNonce := out.localHostNonce
          connections := node.connections.set index (peer, out.conn) } [message] out.sent
  | .permit id canConnect => net.update id { net.nodes id with canConnect := canConnect } [] []
  | .close id index =>
    let node := net.nodes id
    match node.connections[index]? with
    | none => net
    | some (peer, conn) =>
      net.update id
        { node with
          connections := node.connections.set index (peer, { conn with fDisconnect := true }) } [] []

def Message.nonces : Message PubKey → List Nonce
  | .version _ nonce => [nonce.getD 1]
  | .verack nonce _ _ _ => [nonce]
  | _ => []

def Network.nonces (net : Network NodeId PubKey) : List Nonce :=
  net.delivered.flatMap Message.nonces

/-- What the attacker and the nodes can do: signatures are not forged, nodes sign with keys of
their own, the nonce of a verack is new, and no key of the attacker may connect. -/
def Network.Allowed (net : Network NodeId PubKey) : Event NodeId PubKey → Prop
  | .accept _ _ _ => True
  | .connect _ _ _ _ => True
  | .deliver _ _ message key fresh => (∀ s ∈ message.signatures,
      setup.attackerKey s.key = true ∨ ∃ m ∈ net.sent, s ∈ m.signatures)
      ∧ setup.attackerKey key = false ∧ fresh.verack ∉ message.nonces ∧ fresh.verack ∉ net.nonces
  | .permit _ canConnect =>
    ∀ key, setup.attackerKey key = true → canConnect (setup.keyId key) = false
  | .close _ _ => True

structure Network.Initial (net : Network NodeId PubKey) : Prop where
  denied : ∀ id key, setup.attackerKey key = true →
    (net.nodes id).canConnect (setup.keyId key) = false
  unconnected : ∀ id, (net.nodes id).connections = []
  unsent : net.sent = []

/-- The runs from one network, with events in any order. -/
inductive Run (ok : Network NodeId PubKey → Event NodeId PubKey → Prop)
    (start : Network NodeId PubKey) : Network NodeId PubKey → Prop where
  | start : Run ok start start
  | step {net : Network NodeId PubKey} (event : Event NodeId PubKey) (hrun : Run ok start net)
      (hallowed : net.Allowed setup event) (hok : ok net event) :
      Run ok start (net.apply setup event)

def Network.Authenticated (net : Network NodeId PubKey) : Prop :=
  ∀ id, ∀ entry ∈ (net.nodes id).connections, entry.1 = .attacker →
    entry.2.fParameterSetVerified = false ∧ entry.2.processed = 0

def Network.IsChallenge (net : Network NodeId PubKey) (nonce : Nonce) : Prop :=
  ∃ id, ∃ entry ∈ (net.nodes id).connections, entry.1 = .attacker ∧ entry.2.IsOpen
    ∧ entry.2.nVerackNonceSent = nonce

/-- The message does not hand a node the nonce of a verack to the attacker, to be signed, and is
no version message that leaves the nonces as they are in memory. -/
def Network.PassesNoChallenge (net : Network NodeId PubKey) : Event NodeId PubKey → Prop
  | .deliver _ _ message _ _ => (∀ nVersion, message ≠ .shortVersion nVersion)
      ∧ ∀ nonce ∈ message.nonces, ¬net.IsChallenge nonce
  | _ => True

structure Network.Spent (net : Network NodeId PubKey) (nonce : Nonce) : Prop where
  asked : nonce ∈ net.nonces
  harmless : ¬net.IsChallenge nonce

structure Network.Secure (net : Network NodeId PubKey) : Prop where
  denied : ∀ id key, setup.attackerKey key = true →
    (net.nodes id).canConnect (setup.keyId key) = false
  authenticated : net.Authenticated
  signed : ∀ m ∈ net.sent, ∀ s ∈ m.signatures, setup.attackerKey s.key = false → net.Spent s.nonce
  received : ∀ id, ∀ entry ∈ (net.nodes id).connections, entry.2.IsOpen →
    net.Spent entry.2.nVersionNonceReceived

/-- A connection that may take its place in a network: its challenge is an old one, or nobody
was asked to sign it, not even by the messages `delivered` along with it. -/
structure Network.Admits (net : Network NodeId PubKey) (delivered : List (Message PubKey))
    (entry : Peer NodeId × Connection) : Prop where
  unverified : entry.1 = .attacker →
    entry.2.fParameterSetVerified = false ∧ entry.2.processed = 0
  received : entry.2.IsOpen →
    entry.2.nVersionNonceReceived ∈ delivered.flatMap Message.nonces ++ net.nonces
      ∧ ¬net.IsChallenge entry.2.nVersionNonceReceived
  challenge : entry.1 = .attacker → entry.2.IsOpen →
    net.IsChallenge entry.2.nVerackNonceSent
      ∨ entry.2.nVerackNonceSent ∉ delivered.flatMap Message.nonces ++ net.nonces

section Updates

variable {setup} {net : Network NodeId PubKey} {id : NodeId} {node : Node NodeId}
variable {delivered sent : List (Message PubKey)}

omit [DecidableEq PubKey] in
theorem mem_nonces_update {nonce : Nonce} : nonce ∈ (net.update id node delivered sent).nonces
      ↔ nonce ∈ delivered.flatMap Message.nonces ++ net.nonces := by
  rw [Network.nonces, Network.update, List.flatMap_append, Network.nonces]

omit [DecidableEq PubKey] in
theorem mem_connections_update {other : NodeId} {entry : Peer NodeId × Connection}
    (hmem : entry ∈ ((net.update id node delivered sent).nodes other).connections) :
    entry ∈ (net.nodes other).connections ∨ entry ∈ node.connections := by
  rw [Network.update] at hmem
  dsimp only at hmem
  rw [Function.update_apply] at hmem
  split at hmem
  · exact .inr hmem
  exact .inl hmem

variable (hentries : ∀ entry ∈ node.connections,
  entry ∈ (net.nodes id).connections ∨ net.Admits delivered entry)

include hentries

omit [DecidableEq PubKey] in
theorem spent_update {nonce : Nonce}
    (hasked : nonce ∈ delivered.flatMap Message.nonces ++ net.nonces)
    (hharmless : ¬net.IsChallenge nonce) : (net.update id node delivered sent).Spent nonce := by
  refine ⟨mem_nonces_update.mpr hasked, ?_⟩
  rintro ⟨other, entry, hmem, hattacker, hopen, rfl⟩
  have hold : entry ∈ (net.nodes other).connections ∨ net.Admits delivered entry
      ∨ entry ∈ (net.nodes id).connections := by
    obtain hmem | hmem := mem_connections_update hmem
    · exact .inl hmem
    · exact .inr (hentries entry hmem).symm
  obtain hmem | hadmits | hmem := hold
  · exact hharmless ⟨other, entry, hmem, hattacker, hopen, rfl⟩
  · obtain hchallenge | hunasked := hadmits.challenge hattacker hopen
    · exact hharmless hchallenge
    · exact hunasked hasked
  exact hharmless ⟨id, entry, hmem, hattacker, hopen, rfl⟩

omit [DecidableEq PubKey] in
/-- An event keeps a network secure when the new connections are admitted and the new signatures
answer no challenge. -/
theorem Network.Secure.update (hsecure : net.Secure setup)
    (hdenied : ∀ key, setup.attackerKey key = true → node.canConnect (setup.keyId key) = false)
    (hsigned : ∀ m ∈ sent, ∀ s ∈ m.signatures, setup.attackerKey s.key = false →
      s.nonce ∈ delivered.flatMap Message.nonces ++ net.nonces ∧ ¬net.IsChallenge s.nonce) :
    (net.update id node delivered sent).Secure setup where
  denied := by
    intro other key hkey
    rw [Network.update]
    dsimp only
    rw [Function.update_apply]
    split
    · exact hdenied key hkey
    · exact hsecure.denied other key hkey
  authenticated := by
    intro other entry hmem hattacker
    obtain hmem | hmem := mem_connections_update hmem
    · exact hsecure.authenticated other entry hmem hattacker
    obtain hmem | hadmits := hentries entry hmem
    · exact hsecure.authenticated id entry hmem hattacker
    · exact hadmits.unverified hattacker
  signed := by
    intro m hm s hs hkey
    obtain hm | hm := List.mem_append.mp hm
    · obtain ⟨hasked, hharmless⟩ := hsigned m hm s hs hkey
      exact spent_update hentries hasked hharmless
    have hspent := hsecure.signed m hm s hs hkey
    exact spent_update hentries (List.mem_append_right _ hspent.asked) hspent.harmless
  received := by
    intro other entry hmem hopen
    have hspent (hspent : net.Spent entry.2.nVersionNonceReceived) :=
      @spent_update _ _ _ net id node delivered sent hentries _
        (List.mem_append_right _ hspent.asked) hspent.harmless
    obtain hmem | hmem := mem_connections_update hmem
    · exact hspent (hsecure.received other entry hmem hopen)
    obtain hmem | hadmits := hentries entry hmem
    · exact hspent (hsecure.received id entry hmem hopen)
    obtain ⟨hasked, hharmless⟩ := hadmits.received hopen
    exact spent_update hentries hasked hharmless

end Updates

theorem Kept.isOpen {conn next : Connection} (hkept : Kept conn next) (hopen : next.IsOpen) :
    conn.IsOpen where
  nVersion := by
    rw [← hkept.nVersion]
    exact hopen.nVersion
  connected := hkept.disconnect hopen.connected

theorem not_isOpen_of_closed {conn : Connection} (hclosed : conn.fDisconnect = true) :
    ¬conn.IsOpen := by
  intro hopen
  rw [hopen.connected] at hclosed
  cases hclosed

section Delivery

variable {setup} {net : Network NodeId PubKey} {id : NodeId} {index : ℕ}
variable {peer : Peer NodeId} {conn next : Connection} {message : Message PubKey}
variable {key : PubKey} {fresh : FreshNonces} {sent : List (Message PubKey)}
variable (hsecure : net.Secure setup) (hmem : (peer, conn) ∈ (net.nodes id).connections)

include hsecure hmem

omit [DecidableEq NodeId] [DecidableEq PubKey] in
theorem received_of_kept (hkept : Kept conn next) (hopen : next.IsOpen) :
    next.nVersionNonceReceived ∈ [message].flatMap Message.nonces ++ net.nonces
      ∧ ¬net.IsChallenge next.nVersionNonceReceived := by
  have hspent := hsecure.received id _ hmem (hkept.isOpen hopen)
  rw [hkept.nVersionNonceReceived]
  exact ⟨List.mem_append_right _ hspent.asked, hspent.harmless⟩

omit [DecidableEq NodeId] [DecidableEq PubKey] in
theorem unverified_of_sameTrust (hsame : SameTrust conn next) (hattacker : peer = .attacker) :
    next.fParameterSetVerified = false ∧ next.processed = 0 := by
  rw [hsame.verified, hsame.processed]
  exact hsecure.authenticated id _ hmem hattacker

omit hsecure [DecidableEq NodeId] [DecidableEq PubKey] in
theorem isChallenge_of_kept (hkept : Kept conn next) (hattacker : peer = .attacker)
    (hopen : next.IsOpen) : net.IsChallenge next.nVerackNonceSent := by
  rw [hkept.nVerackNonceSent]
  exact ⟨id, _, hmem, hattacker, hkept.isOpen hopen, rfl⟩

omit [DecidableEq NodeId] [DecidableEq PubKey] in
theorem admits_of_kept (hkept : Kept conn next)
    (hverified : peer = .attacker → next.fParameterSetVerified = false ∧ next.processed = 0) :
    net.Admits [message] (peer, next) where
  unverified := hverified
  received := received_of_kept hsecure hmem hkept
  challenge := fun hattacker hopen => .inl (isChallenge_of_kept hmem hkept hattacker hopen)

variable (hpasses : net.PassesNoChallenge (.deliver id index message key fresh))

include hpasses

omit [DecidableEq NodeId] [DecidableEq PubKey] in
/-- After a message its connection may stay. -/
theorem admits_answer (hallowed : net.Allowed setup (.deliver id index message key fresh))
    (hanswer : Answer (setup.env (net.nodes id).canConnect) key fresh.verack conn message next
      sent) : net.Admits [message] (peer, next) := by
  obtain ⟨hsignatures, -, hmessage, hnonces⟩ := hallowed
  obtain ⟨hcomplete, hharmless⟩ := hpasses
  have hfresh : fresh.verack ∉ [message].flatMap Message.nonces ++ net.nonces := by
    rw [List.flatMap_singleton]
    exact fun hasked => (List.mem_append.mp hasked).elim hmessage hnonces
  cases hanswer with
  | silent hkept hsame =>
    exact admits_of_kept hsecure hmem hkept (unverified_of_sameTrust hsecure hmem hsame)
  | closed hsame hclosed =>
    exact ⟨unverified_of_sameTrust hsecure hmem hsame,
      fun hopen => absurd hopen (not_isOpen_of_closed hclosed),
      fun _ hopen => absurd hopen (not_isOpen_of_closed hclosed)⟩
  | short hshort => exact absurd hshort (hcomplete _)
  | version hversion hsame hreceived hverack hsigned =>
    refine ⟨unverified_of_sameTrust hsecure hmem hsame, ?_, ?_⟩
    · intro hopen
      subst hversion
      rw [hreceived]
      exact ⟨List.mem_append_left _ (.head _), hharmless _ (.head _)⟩
    intro hattacker hopen
    rw [hverack]
    exact .inr hfresh
  | verack hverack hkept hsame hsigned =>
    exact admits_of_kept hsecure hmem hkept (unverified_of_sameTrust hsecure hmem hsame)
  | again hopen hkept hsame hverack hsigned =>
    refine ⟨unverified_of_sameTrust hsecure hmem hsame, ?_, ?_⟩
    · intro hnext
      have hopened : conn.IsOpen := hkept.isOpen ⟨hnext.nVersion, hnext.connected⟩
      have hspent := hsecure.received id _ hmem hopened
      rw [show next.nVersionNonceReceived = conn.nVersionNonceReceived from
        hkept.nVersionNonceReceived]
      exact ⟨List.mem_append_right _ hspent.asked, hspent.harmless⟩
    intro hattacker hnext
    rw [hverack]
    exact .inr hfresh
  | verified hopen hverackack hpermitted hkept =>
    refine admits_of_kept hsecure hmem hkept ?_
    intro hattacker
    -- the signature is one of an honest node, so its nonce is no challenge
    rename_i hash signer
    subst hverackack
    have hkey : setup.attackerKey signer = false := by
      cases hkey : setup.attackerKey signer with
      | false => rfl
      | true =>
        have hdenied := hsecure.denied id signer hkey
        cases hdenied.symm.trans hpermitted
    obtain hforged | ⟨m, hm, hs⟩ := hsignatures _ (.head _)
    · rw [hkey] at hforged
      cases hforged
    have hspent := hsecure.signed m hm _ hs hkey
    exact absurd ⟨id, _, hmem, hattacker, hopen, rfl⟩ hspent.harmless
  | other hverified hkept =>
    refine admits_of_kept hsecure hmem hkept ?_
    intro hattacker
    have hunverified := (hsecure.authenticated id _ hmem hattacker).1
    rw [hverified] at hunverified
    cases hunverified

omit [DecidableEq NodeId] [DecidableEq PubKey] in
/-- What a node signs upon a message is no challenge. -/
theorem signed_answer
    (hanswer : Answer (setup.env (net.nodes id).canConnect) key fresh.verack conn message next
      sent) : ∀ m ∈ sent, ∀ s ∈ m.signatures,
      s.nonce ∈ [message].flatMap Message.nonces ++ net.nonces ∧ ¬net.IsChallenge s.nonce := by
  obtain ⟨-, hharmless⟩ := hpasses
  have hmessage {nonce : Nonce} (hnonce : nonce ∈ message.nonces) :
      nonce ∈ [message].flatMap Message.nonces ++ net.nonces ∧ ¬net.IsChallenge nonce := by
    rw [List.flatMap_singleton]
    exact ⟨List.mem_append_left _ hnonce, hharmless nonce hnonce⟩
  intro m hm s hs
  cases hanswer with
  | silent => cases hm
  | closed => cases hm
  | short => cases hm
  | version hversion _ _ _ hsigned =>
    rw [hsigned m hm s hs]
    exact hmessage (by rw [hversion]; exact .head _)
  | verack hverack _ _ hsigned =>
    rw [hsigned m hm s hs]
    exact hmessage (by rw [hverack]; exact .head _)
  | again hopen _ _ _ hsigned =>
    have hspent := hsecure.received id _ hmem hopen
    rw [hsigned m hm s hs]
    exact ⟨List.mem_append_right _ hspent.asked, hspent.harmless⟩
  | verified => cases hm
  | other => cases hm

end Delivery

variable {setup}

/-- Every event that passes on no challenge keeps the network secure. -/
theorem Network.Secure.apply {net : Network NodeId PubKey} (hsecure : net.Secure setup)
    (event : Event NodeId PubKey) (hallowed : net.Allowed setup event)
    (hpasses : net.PassesNoChallenge event) : (net.apply setup event).Secure setup := by
  have hnew (delivered : List (Message PubKey)) (peer : Peer NodeId) (conn : Connection)
      (hunopened : ¬conn.IsOpen)
      (hunverified : peer = .attacker → conn.fParameterSetVerified = false ∧ conn.processed = 0) :
      net.Admits delivered (peer, conn) :=
    ⟨hunverified, fun hopen => absurd hopen hunopened, fun _ hopen => absurd hopen hunopened⟩
  cases event with
  | accept id peer memory =>
    refine hsecure.update ?_ (hsecure.denied id) nofun
    intro entry hentry
    obtain hentry | hentry := List.mem_append.mp hentry
    · exact .inl hentry
    obtain rfl := List.mem_singleton.mp hentry
    exact .inr (hnew [] peer _ (fun hopen => hopen.nVersion rfl) fun _ => ⟨rfl, rfl⟩)
  | connect id peer memory nonce =>
    refine hsecure.update ?_ (hsecure.denied id) ?_
    · intro entry hentry
      obtain hentry | hentry := List.mem_append.mp hentry
      · exact .inl hentry
      obtain rfl := List.mem_singleton.mp hentry
      exact .inr (hnew [] peer _ (fun hopen => hopen.nVersion rfl) fun _ => ⟨rfl, rfl⟩)
    intro m hm s hs
    obtain rfl := List.mem_singleton.mp hm
    cases hs
  | deliver id index message key fresh =>
    rw [Network.apply]
    split
    · exact hsecure
    rename_i peer conn hconn
    have hmem := List.mem_of_getElem? hconn
    have hanswer := @processMessages_answer _ _ (setup.env (net.nodes id).canConnect) key
      fresh (net.nodes id).localHostNonce conn message
    refine hsecure.update ?_ (hsecure.denied id) ?_
    · intro entry hentry
      obtain hentry | rfl := List.mem_or_eq_of_mem_set hentry
      · exact .inl hentry
      · exact .inr (admits_answer hsecure hmem hpasses hallowed hanswer)
    intro m hm s hs _
    exact signed_answer hsecure hmem hpasses hanswer m hm s hs
  | permit id canConnect => exact hsecure.update (fun _ hentry => .inl hentry) hallowed nofun
  | close id index =>
    rw [Network.apply]
    split
    · exact hsecure
    rename_i peer conn hconn
    refine hsecure.update ?_ (hsecure.denied id) nofun
    intro entry hentry
    obtain hentry | rfl := List.mem_or_eq_of_mem_set hentry
    · exact .inl hentry
    exact .inr (hnew [] peer _ (not_isOpen_of_closed rfl)
      (hsecure.authenticated id _ (List.mem_of_getElem? hconn)))

omit [DecidableEq NodeId] [DecidableEq PubKey] in
theorem Network.Initial.secure {net : Network NodeId PubKey} (hinitial : net.Initial setup) :
    net.Secure setup where
  denied := hinitial.denied
  authenticated := by
    intro id entry hentry
    rw [hinitial.unconnected] at hentry
    cases hentry
  signed := by
    intro m hm
    rw [hinitial.unsent] at hm
    cases hm
  received := by
    intro id entry hentry
    rw [hinitial.unconnected] at hentry
    cases hentry

theorem Run.secure {start net : Network NodeId PubKey} (hinitial : start.Initial setup)
    (hrun : Run setup Network.PassesNoChallenge start net) : net.Secure setup := by
  induction hrun with
  | start => exact hinitial.secure
  | step event _ hallowed hok hsecure => exact hsecure.apply event hallowed hok

/-- In a run in which no node is handed the nonce of a verack to the attacker, none of his
connections is verified, and nothing but the handshake is processed on them. -/
theorem handshake_authenticated {start net : Network NodeId PubKey} (hinitial : start.Initial setup)
    (hrun : Run setup Network.PassesNoChallenge start net) : net.Authenticated :=
  (hrun.secure hinitial).authenticated

/-- One honest node with the key `true`, and the attacker with the key `false`. -/
def loneSetup : Setup Bool where
  verackHash := fun nonce => nonce.setWidth 256
  keyId := fun key => if key then 1 else 0
  attackerKey := fun key => !key

def loneNode : Network Unit Bool where
  nodes := fun _ => ⟨fun address => address = 1, 0, []⟩
  sent := []
  delivered := []

theorem loneNode_initial : loneNode.Initial loneSetup where
  denied := fun _ key hkey => by
    cases key with
    | false => rfl
    | true => cases hkey
  unconnected := fun _ => rfl
  unsent := rfl

def attackerConnects : Event Unit Bool :=
  .accept () .attacker ⟨0, 0, 0, 0, 0⟩

/-- The node answers the version message of the attacker with the nonce 101 of its verack. -/
def challenges : Event Unit Bool :=
  .deliver () 0 (.version PROTOCOL_VERSION (some 5)) true ⟨100, 101⟩

/-- On a second connection the attacker passes the nonce for one of his. -/
def passesOn : Event Unit Bool :=
  .deliver () 1 (.version PROTOCOL_VERSION (some 101)) true ⟨102, 103⟩

/-- He answers with a signature, of the key `signer`. -/
def responds (signer : Bool) : Event Unit Bool :=
  .deliver () 0
    (.verackack (some (loneSetup.verackHash 101))
      (.signed (some ⟨signer, loneSetup.verackHash 101, 101⟩) signer)) true ⟨104, 105⟩

def asksForMore : Event Unit Bool :=
  .deliver () 0 .other true ⟨106, 107⟩

/-- With a signature of his own the attacker is not verified. -/
theorem handshake_authenticated_response :
    ((loneNode.apply loneSetup attackerConnects).apply loneSetup challenges
      |>.apply loneSetup (responds false)).Authenticated := by
  have hconnects : Run loneSetup Network.PassesNoChallenge loneNode
      (loneNode.apply loneSetup attackerConnects) := .step _ .start trivial trivial
  have hchallenges := hconnects.step challenges
    (And.intro (by decide) (And.intro (by decide) (And.intro (by decide) (by decide))))
    (And.intro nofun (by
      rintro nonce - ⟨_, entry, hmem, -, hopen, -⟩
      obtain rfl := List.mem_singleton.mp hmem
      exact hopen.nVersion rfl))
  have hresponds := hchallenges.step (responds false)
    (And.intro (by decide) (And.intro (by decide) (And.intro (by decide) (by decide))))
    (And.intro nofun nofun)
  exact handshake_authenticated loneNode_initial hresponds

/-- The node signs its own nonce, the attacker sends the signature back, and is verified. -/
theorem passed_challenge_verified :
    ∃ net, loneNode.Initial loneSetup ∧ Run loneSetup (fun _ _ => True) loneNode net
      ∧ ∃ entry ∈ (net.nodes ()).connections, entry.1 = .attacker
        ∧ entry.2.fParameterSetVerified = true ∧ entry.2.processed = 1 := by
  have hconnects : Run loneSetup (fun _ _ => True) loneNode
      ((loneNode.apply loneSetup attackerConnects).apply loneSetup attackerConnects) :=
    .step _ (.step _ .start trivial trivial) trivial trivial
  have hchallenges := hconnects.step challenges
    (And.intro (by decide) (And.intro (by decide) (And.intro (by decide) (by decide)))) trivial
  have hpasses := hchallenges.step passesOn
    (And.intro (by decide) (And.intro (by decide) (And.intro (by decide) (by decide +kernel))))
    trivial
  have hresponds := hpasses.step (responds true)
    (And.intro (by decide +kernel)
      (And.intro (by decide) (And.intro (by decide) (by decide +kernel)))) trivial
  have hasks := hresponds.step asksForMore
    (And.intro (by decide) (And.intro (by decide) (And.intro (by decide) (by decide +kernel))))
    trivial
  exact ⟨_, loneNode_initial, hasks, by decide +kernel⟩

end Amberchain.Handshake
