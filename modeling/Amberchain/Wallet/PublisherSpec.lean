import Amberchain.Interpreter.InputAddress
import Amberchain.Script.Solver
import Amberchain.Transaction.Accept
import Mathlib.Data.List.Sort

/-!
# Stream items of a transaction

The part of `AddTx` that indexes the stream items of a transaction, with the publishers that
it reads off the input scripts.
-/

namespace Amberchain.Wallet

open FirstKept (keepFirst)
open Transaction

structure StreamItem where
  output : ℕ
  stream : BitVec 128
  key : Hash160
  publishers : List Destination
deriving DecidableEq

section

variable (params : ChainParams) (hash160 : Bytes → Hash160) (subscribed : BitVec 128 → Bool)

/-- The publisher of the item in output `i` that an input stands for: the input has to sign
the output. -/
def publisher (i : ℕ) (scriptSig : Bytes) (j : ℕ) : Option Destination :=
  match Script.extractAddress scriptSig with
  | none => none
  | some (data, isRedeemScript) =>
    let hashType := Script.sigHashType scriptSig false
    if hashType = .all ∨ hashType = .single ∧ j = i then
      some (if isRedeemScript then .script (hash160 data) else .key (hash160 data))
    else none

def publishers (tx : Tx) (i : ℕ) : List Destination :=
  tx.vin.zipIdx.foldl
    (fun found (input, j) =>
      match publisher hash160 i input.scriptSig j with
      | none => found
      | some address => keepFirst Destination.address found address) []

def itemStream (script : Bytes) : Option (BitVec 128) :=
  let script := McScript.setScript params script
  if script.isOpReturn ∧ script.numElements = 3 then
    match (script.setElement 0).getEntity with
    | .ok stream => if subscribed stream then some stream else none
    | .error _ => none
  else none

def indexOutput (tx : Tx) (items : List StreamItem) (output : TxOut × ℕ) :
    Except McError (List StreamItem) :=
  match itemStream params subscribed output.1.scriptPubKey with
  | none => .ok items
  | some stream =>
    if items.any fun item => item.stream = stream then .ok items
    else
      match ((McScript.setScript params output.1.scriptPubKey).setElement 1).getItemKey with
      | .error _ => .error .internalError
      | .ok key =>
        .ok (items ++ [⟨output.2, stream, hash160 key, publishers hash160 tx output.2⟩])

/-- The stream items that `AddTx` indexes. -/
def indexItems (tx : Tx) : Except McError (List StreamItem) :=
  tx.vout.zipIdx.foldlM (indexOutput params hash160 subscribed tx) []

end

/-! ## What is indexed -/

variable {params : ChainParams} {hash160 : Bytes → Hash160} {subscribed : BitVec 128 → Bool}
  {tx : Tx}

def FirstItem (params : ChainParams) (subscribed : BitVec 128 → Bool) (outputs : List TxOut)
    (i : ℕ) (stream : BitVec 128) : Prop :=
  ((outputs[i]?).bind fun output => itemStream params subscribed output.scriptPubKey) = some stream
    ∧ ∀ i' < i, ((outputs[i']?).bind fun output =>
      itemStream params subscribed output.scriptPubKey) ≠ some stream

/-- After some outputs, the first items of their streams are indexed. -/
structure Indexed (params : ChainParams) (hash160 : Bytes → Hash160)
    (subscribed : BitVec 128 → Bool) (tx : Tx) (done : ℕ) (items : List StreamItem) : Prop where
  sound : ∀ item ∈ items, item.output < done
    ∧ FirstItem params subscribed tx.vout item.output item.stream
    ∧ item.publishers = publishers hash160 tx item.output
  complete : ∀ i < done, ∀ stream, ((tx.vout[i]?).bind fun output =>
      itemStream params subscribed output.scriptPubKey) = some stream →
    ∃ item ∈ items, item.stream = stream

theorem Indexed.output {done : ℕ} {items next : List StreamItem} {output : TxOut}
    (hindexed : Indexed params hash160 subscribed tx done items)
    (houtput : tx.vout[done]? = some output)
    (hround : indexOutput params hash160 subscribed tx items (output, done) = .ok next) :
    Indexed params hash160 subscribed tx (done + 1) next := by
  have hstream : ((tx.vout[done]?).bind fun output =>
      itemStream params subscribed output.scriptPubKey)
        = itemStream params subscribed output.scriptPubKey := by
    rw [houtput, Option.bind_some]
  unfold indexOutput at hround
  cases hitem : itemStream params subscribed output.scriptPubKey with
  | none =>
    rw [hitem] at hround hstream
    cases hround
    refine ⟨fun item hmem => ?_, fun i hi stream hi' => ?_⟩
    · obtain ⟨hlt, hitem⟩ := hindexed.sound item hmem
      exact ⟨Nat.lt_succ_of_lt hlt, hitem⟩
    rcases Nat.lt_succ_iff_lt_or_eq.mp hi with hlt | rfl
    · exact hindexed.complete i hlt stream hi'
    rw [hstream] at hi'
    cases hi'
  | some found =>
    rw [hitem] at hround hstream
    dsimp only at hround
    split at hround
    next hany =>
      cases hround
      refine ⟨fun item hmem => ?_, fun i hi stream hi' => ?_⟩
      · obtain ⟨hlt, hitem⟩ := hindexed.sound item hmem
        exact ⟨Nat.lt_succ_of_lt hlt, hitem⟩
      rcases Nat.lt_succ_iff_lt_or_eq.mp hi with hlt | rfl
      · exact hindexed.complete i hlt stream hi'
      rw [hstream] at hi'
      cases hi'
      obtain ⟨item, hmem, hsame⟩ := List.any_eq_true.mp hany
      exact ⟨item, hmem, of_decide_eq_true hsame⟩
    next hnew =>
      split at hround
      · cases hround
      cases hround
      have hfirst : FirstItem params subscribed tx.vout done found := by
        refine ⟨hstream, fun i' hlt hsame => ?_⟩
        obtain ⟨item, hmem, hitem⟩ := hindexed.complete i' hlt found hsame
        exact hnew (List.any_eq_true.mpr ⟨item, hmem, decide_eq_true hitem⟩)
      refine ⟨fun item hmem => ?_, fun i hi stream hi' => ?_⟩
      · rcases List.mem_append.mp hmem with hmem | hmem
        · obtain ⟨hlt, hitem⟩ := hindexed.sound item hmem
          exact ⟨Nat.lt_succ_of_lt hlt, hitem⟩
        rw [List.mem_singleton.mp hmem]
        exact ⟨Nat.lt_succ_self _, hfirst, rfl⟩
      rcases Nat.lt_succ_iff_lt_or_eq.mp hi with hlt | rfl
      · obtain ⟨item, hmem, hsame⟩ := hindexed.complete i hlt stream hi'
        exact ⟨item, List.mem_append_left _ hmem, hsame⟩
      rw [hstream] at hi'
      cases hi'
      exact ⟨_, List.mem_append_right _ (List.mem_singleton_self _), rfl⟩

theorem Indexed.outputs {outputs : List TxOut} {done : ℕ} {items final : List StreamItem}
    (hindexed : Indexed params hash160 subscribed tx done items) (hdrop : tx.vout.drop done = outputs)
    (hloop : (outputs.zipIdx done).foldlM (indexOutput params hash160 subscribed tx) items
      = .ok final) : Indexed params hash160 subscribed tx (done + outputs.length) final := by
  induction outputs generalizing done items with
  | nil =>
    cases hloop
    exact hindexed
  | cons output outputs ih =>
    obtain ⟨next, hround, hrest⟩ := Folding.foldlM_cons_eq_ok.mp hloop
    have houtput : tx.vout[done]? = some output := by
      rw [← List.head?_drop, hdrop, List.head?_cons]
    have hnext : tx.vout.drop (done + 1) = outputs := by
      rw [← List.drop_drop, hdrop, List.drop_one, List.tail_cons]
    have hfinal := ih (hindexed.output houtput hround) hnext hrest
    rwa [List.length_cons, Nat.add_comm outputs.length 1, ← Nat.add_assoc]

def recorded (items : List StreamItem) (i : ℕ) : Set Destination :=
  { address | ∃ item ∈ items, item.output = i ∧ address ∈ item.publishers }

/-- They are those of the output, if it has the first item of its stream. -/
theorem mem_recorded {items : List StreamItem} {i : ℕ} {stream : BitVec 128} {address : Destination}
    (hindex : indexItems params hash160 subscribed tx = .ok items) (hi : i < tx.vout.length)
    (hitem : itemStream params subscribed tx.vout[i].scriptPubKey = some stream) :
    address ∈ recorded items i
      ↔ FirstItem params subscribed tx.vout i stream ∧ address ∈ publishers hash160 tx i := by
  have hindexed : Indexed params hash160 subscribed tx (0 + tx.vout.length) items :=
    Indexed.outputs ⟨List.forall_mem_nil _, fun i hi => absurd hi (Nat.not_lt_zero i)⟩ rfl hindex
  rw [Nat.zero_add] at hindexed
  have hstream : ((tx.vout[i]?).bind fun output =>
      itemStream params subscribed output.scriptPubKey) = some stream := by
    rw [List.getElem?_eq_getElem hi, Option.bind_some, hitem]
  constructor
  · rintro ⟨item, hmem, rfl, haddress⟩
    obtain ⟨-, hfirst, hpublishers⟩ := hindexed.sound item hmem
    have hsame : item.stream = stream := Option.some.inj (hfirst.1.symm.trans hstream)
    rw [hsame] at hfirst
    rw [hpublishers] at haddress
    exact ⟨hfirst, haddress⟩
  rintro ⟨hfirst, haddress⟩
  obtain ⟨item, hmem, rfl⟩ := hindexed.complete i hi stream hstream
  obtain ⟨-, hitemFirst, hpublishers⟩ := hindexed.sound item hmem
  have hsame : item.output = i := by
    rcases Nat.lt_trichotomy item.output i with hlt | heq | hlt
    · exact absurd hitemFirst.1 (hfirst.2 _ hlt)
    · exact heq
    · exact absurd hstream (hitemFirst.2 _ hlt)
  subst hsame
  exact ⟨item, hmem, rfl, by rw [hpublishers]; exact haddress⟩

end Amberchain.Wallet

/-!
# Publishers and writers

The publishers that the wallet reads off the input scripts of an accepted transaction,
against the outputs that are spent by the inputs whose writers were checked.
-/

namespace Amberchain.Wallet

open FirstKept (keepFirst)
open Entity Interpreter Script Transaction
open Permission (Store)

/-! ## What is compared -/

def spentDestination (env : TxEnv) (input : TxIn) : Destination :=
  (extractDestinations env.script env.params (env.spentScript input.prevout)).addresses.headD .none

/-- The destinations of the outputs that are spent by the inputs which count as signing an
output; a coinbase spends none. -/
def spentBySigners (env : TxEnv) (tx : Tx) (inputs : Inputs) (i : ℕ) : Set Destination :=
  { address | tx.isCoinBase = false
      ∧ ∃ (k : ℕ) (hk : k < tx.vin.length), k ∈ inputs.signers i
        ∧ spentDestination env tx.vin[k] = address }

def startsEmpty (scriptSig : Bytes) : Bool :=
  (getOp scriptSig).any fun op => op.data = []

def EndsWithData (scriptSig : Bytes) : Prop :=
  ∀ first rest, HasOps scriptSig (first :: rest) → (lastOp first rest).opcode ≤ OP_PUSHDATA4

/-- The signers that spend a script hash in another form than `IsPayToScriptHash` knows
start with an empty element and end with data. -/
def PlainSigners (env : TxEnv) (tx : Tx) (inputs : Inputs) (i : ℕ) : Prop :=
  ∀ (k : ℕ) (hk : k < tx.vin.length), k ∈ inputs.signers i → inputs.scriptType k = .scriptHash →
    isPayToScriptHash (env.spentScript tx.vin[k].prevout) = true
      ∨ startsEmpty tx.vin[k].scriptSig = true ∧ EndsWithData tx.vin[k].scriptSig

/-- The first signer with the hash that a signer spends starts with an empty element just
when the signer spends a script hash. -/
def KindsAgree (tx : Tx) (inputs : Inputs) (i : ℕ) : Prop :=
  ∀ k ∈ inputs.signers i, ∀ (w : ℕ) (hw : w < tx.vin.length), w ∈ inputs.signers i →
    inputs.destination w = inputs.destination k →
    (∀ w' ∈ inputs.signers i, w' < w → inputs.destination w' ≠ inputs.destination k) →
    (startsEmpty tx.vin[w].scriptSig = true ↔ inputs.scriptType k = .scriptHash)

/-! ## The first of the signers -/

theorem find?_eq_some_iff_of_sorted {p : ℕ → Bool} {items : List ℕ}
    (hsorted : items.Pairwise (· < ·)) {w : ℕ} :
    items.find? p = some w ↔ w ∈ items ∧ p w = true ∧ ∀ w' ∈ items, w' < w → p w' = false := by
  induction items with
  | nil => simp
  | cons head tail ih =>
    obtain ⟨hhead, htail⟩ := List.pairwise_cons.mp hsorted
    by_cases hp : p head = true
    · rw [List.find?_cons_of_pos hp]
      constructor
      · intro heq
        obtain rfl := Option.some.inj heq
        refine ⟨(.head _), hp, fun w' hmem hlt => ?_⟩
        rcases List.mem_cons.mp hmem with rfl | hmem
        · omega
        have := hhead w' hmem
        omega
      rintro ⟨hmem, -, hfirst⟩
      rcases List.mem_cons.mp hmem with rfl | hmem
      · rfl
      rw [hfirst head (.head _) (hhead w hmem)] at hp
      cases hp
    rw [List.find?_cons_of_neg hp, ih htail]
    have hfalse : p head = false := Bool.eq_false_iff.mpr hp
    constructor
    · rintro ⟨hmem, hpw, hfirst⟩
      refine ⟨List.mem_cons_of_mem _ hmem, hpw, fun w' hmem' hlt => ?_⟩
      rcases List.mem_cons.mp hmem' with rfl | hmem'
      · exact hfalse
      · exact hfirst w' hmem' hlt
    rintro ⟨hmem, hpw, hfirst⟩
    rcases List.mem_cons.mp hmem with rfl | hmem
    · exact absurd hpw hp
    exact ⟨hmem, hpw, fun w' hmem' => hfirst w' (.tail _ hmem')⟩

theorem signers_sorted (inputs : Inputs) (i : ℕ) : (inputs.signers i).Pairwise (· < ·) :=
  List.Pairwise.filter _ List.pairwise_lt_range

/-! ## The signers of a verified transaction -/

/-- From protocol 10009 on every output with a destination has one of the standard forms;
before, this is asked of the outputs that are spent. -/
def StandardForm (env : TxEnv) (script : Bytes) : Prop :=
  env.params.fixedDestinationExtraction = true
    ∨ ((extractDestinations env.script env.params script).ok = true →
      IsStandard env.script script (extractDestinations env.script env.params script).type
        (extractDestinations env.script env.params script).addresses)

variable {script : Bytes}

theorem StandardForm.isStandard {env : TxEnv} (hform : StandardForm env script)
    (hok : (extractDestinations env.script env.params script).ok = true)
    (haddress : (extractDestinations env.script env.params script).addresses ≠ []) :
    IsStandard env.script script (extractDestinations env.script env.params script).type
      (extractDestinations env.script env.params script).addresses := by
  rcases hform with hfixed | hstandard
  · exact isStandard_of_address hfixed hok haddress
  exact hstandard hok

structure PublishingInput (env : TxEnv) (input : TxIn) (info : InputInfo) : Prop where
  hashType : info.hashType = sigHashType input.scriptSig false
  standard : IsStandard env.script (env.spentScript input.prevout) info.scriptType
    (extractDestinations env.script env.params (env.spentScript input.prevout)).addresses
  kind : info.scriptType = .pubkeyHash ∨ info.scriptType = .scriptHash
  destination : (spentDestination env input).address = some info.destination

variable {addresses : List Destination}

theorem IsStandard.kind {scriptEnv : ScriptEnv} {type : TxnOutType}
    (hstandard : IsStandard scriptEnv script type addresses)
    (hpubkey : type ≠ .pubkey) (hmultisig : type ≠ .multisig) :
    type = .pubkeyHash ∨ type = .scriptHash := by
  obtain ⟨ops, -, hops⟩ := hstandard.ops
  cases hops with
  | pubkeyHash => exact .inl rfl
  | scriptHash => exact .inr rfl
  | pubkey => exact absurd rfl hpubkey
  | multisig => exact absurd rfl hmultisig

theorem IsStandard.exists_key {scriptEnv : ScriptEnv}
    (hstandard : IsStandard scriptEnv script .pubkeyHash addresses) :
    ∃ id, addresses = [.key id] := by
  obtain ⟨ops, -, hops⟩ := hstandard.ops
  cases hops
  exact ⟨_, rfl⟩

theorem IsStandard.exists_script {scriptEnv : ScriptEnv}
    (hstandard : IsStandard scriptEnv script .scriptHash addresses) :
    ∃ id, addresses = [.script id] := by
  obtain ⟨ops, -, hops⟩ := hstandard.ops
  cases hops
  exact ⟨_, rfl⟩

theorem publishingInput {env : TxEnv} {inputs : Inputs} {input : TxIn} {info : InputInfo}
    (hform : StandardForm env (env.spentScript input.prevout))
    (hscanned : ScannedInput env inputs input info)
    (hreject : inputs.rejectIfOpDropOpReturn = false) : PublishingInput env input info := by
  obtain ⟨refused, hinfo, hrefused⟩ := hscanned.found
  obtain rfl := hrefused hreject
  unfold inputInfo at hinfo
  dsimp only at hinfo
  split at hinfo
  · cases hinfo
  next hok =>
    split at hinfo
    · cases hinfo
    next hdata =>
      split at hinfo
      · cases hinfo
      next address haddress =>
        have hstandard := hform.isStandard (not_not.mp hok) (by
          intro hnil
          rw [hnil] at haddress
          cases haddress)
        obtain ⟨hinfo, hcheckLast⟩ := Prod.mk.inj (Except.ok.inj hinfo)
        subst hinfo
        obtain ⟨hpubkey, hmultisig⟩ := not_or.mp (of_decide_eq_false hcheckLast)
        refine ⟨by rw [hcheckLast], hstandard, ?_, ?_⟩
        · exact IsStandard.kind hstandard hpubkey hmultisig
        rw [if_neg hmultisig]
        exact haddress

theorem PublishingInput.spentDestination_eq {env : TxEnv} {input : TxIn} {info : InputInfo}
    (hinput : PublishingInput env input info) : spentDestination env input
      = if info.scriptType = .scriptHash then .script info.destination
        else .key info.destination := by
  obtain ⟨-, hstandard, hkind, hdestination⟩ := hinput
  unfold spentDestination at hdestination ⊢
  rcases hkind with htype | htype
  · rw [htype] at hstandard ⊢
    obtain ⟨id, haddresses⟩ := IsStandard.exists_key hstandard
    rw [haddresses] at hdestination ⊢
    cases hdestination
    rfl
  rw [htype] at hstandard ⊢
  obtain ⟨id, haddresses⟩ := IsStandard.exists_script hstandard
  rw [haddresses] at hdestination ⊢
  cases hdestination
  rfl

/-- What the wallet reads off the script of a verified input that signs an output. -/
theorem PublishingInput.publisher_eq {env : CheckEnv} {txEnv : TxEnv} {tx : SignedTx} {input : TxIn}
    {info : InputInfo} {flags : VerifyFlags} {sigOps : List SigOp} {i k : ℕ}
    (hstreams : env.params.streams = true)
    (hflag : flags.p2sh = true) (hinput : PublishingInput txEnv input info)
    (hsigns : info.hashType = .all ∨ info.hashType = .single ∧ k = i)
    (hplain : info.scriptType = .scriptHash →
      isPayToScriptHash (txEnv.spentScript input.prevout) = true
        ∨ startsEmpty input.scriptSig = true ∧ EndsWithData input.scriptSig)
    (hverify : verifyScript (env.verifyEnv tx k) flags input.scriptSig
      (txEnv.spentScript input.prevout) = .ok sigOps) :
    publisher env.hashes.hash160 i input.scriptSig k
      = some (if startsEmpty input.scriptSig then .script info.destination
        else .key info.destination) := by
  have hreported : sigHashType input.scriptSig false ≠ .none := by
    rw [← hinput.hashType]
    rintro hnone
    rw [hnone] at hsigns
    rcases hsigns with h | ⟨h, -⟩ <;> cases h
  obtain ⟨first, rest, hops, hpush⟩ := sigHashType_ops hreported
  have hempty : startsEmpty input.scriptSig = decide (first.data = []) := by
    rw [startsEmpty, (hasOps_cons_iff.mp hops).1]
    rfl
  obtain ⟨hhash, hread⟩ : env.hashes.hash160 (lastOp first rest).data = info.destination
      ∧ ¬ (first.data ≠ [] ∧ rest = []) := by
    have hdestination := hinput.destination
    unfold spentDestination at hdestination
    rcases hinput.kind with htype | htype
    · have hstandard := hinput.standard
      rw [htype] at hstandard
      obtain ⟨hmore, haddresses⟩ := verified_pubkeyHash_last hops hpush hstandard hverify
      rw [haddresses] at hdestination
      exact ⟨Option.some.inj hdestination, fun h => hmore h.2⟩
    have hstandard := hinput.standard
    rw [htype] at hstandard
    have haddresses := verified_scriptHash_last hops hpush hstandard hverify
    rw [haddresses] at hdestination
    have hhash := Option.some.inj hdestination
    rcases hplain htype with hscriptHash | ⟨hstart, hend⟩
    · rw [redeemed_last_data hops hpush hflag hscriptHash hverify] at hhash
      have hfirst := redeemed_first_empty hops hstreams hflag hscriptHash hverify
      exact ⟨hhash, fun h => h.1 hfirst⟩
    rw [pushedValue, if_pos (hend first rest hops)] at hhash
    rw [hempty, decide_eq_true_eq] at hstart
    exact ⟨hhash, fun h => h.1 hstart⟩
  rw [hinput.hashType] at hsigns
  unfold publisher
  rw [extractAddress_eq hops hpush, if_neg hread, getLastD_map_data]
  dsimp only
  rw [if_pos hsigns, hhash, hempty]

/-! ## The publishers of an output -/

/-- The transaction is accepted, its input scripts are verified, and its inputs are the ones
whose writers were checked. -/
structure CheckedItem (env : CheckEnv) (txEnv : TxEnv) (flags : VerifyFlags) (tx : SignedTx)
    (inputs : Inputs) : Prop where
  spending : SpendingInputs txEnv tx.toTx inputs
  accepted : inputs.rejectIfOpDropOpReturn = false
  form : ∀ (k : ℕ) (hk : k < tx.vin.length), StandardForm txEnv (txEnv.spentScript tx.vin[k].prevout)
  streams : env.params.streams = true
  p2sh : flags.p2sh = true
  verified : ∀ (k : ℕ) (hk : k < tx.vin.length), ∃ sigOps,
    verifyScript (env.verifyEnv tx k) flags tx.vin[k].scriptSig
      (txEnv.spentScript tx.vin[k].prevout) = .ok sigOps

/-- What the wallet makes of a signer. -/
def recordedAs (tx : Tx) (inputs : Inputs) (k : ℕ) : Destination :=
  if startsEmpty (tx.vin.getD k ⟨⟨0, 0⟩, []⟩).scriptSig then .script (inputs.destination k)
  else .key (inputs.destination k)

theorem recordedAs_address (tx : Tx) (inputs : Inputs) (k : ℕ) :
    (recordedAs tx inputs k).address = some (inputs.destination k) := by
  unfold recordedAs
  split_ifs <;> rfl

variable {env : CheckEnv} {txEnv : TxEnv} {flags : VerifyFlags} {tx : SignedTx} {inputs : Inputs}
  {i : ℕ}

theorem CheckedItem.input (hchecked : CheckedItem env txEnv flags tx inputs) {k : ℕ}
    (hk : k < tx.vin.length) (hk' : k < inputs.inputs.length) :
    PublishingInput txEnv tx.vin[k] inputs.inputs[k] :=
  publishingInput (hchecked.form k hk) (hchecked.spending.scanned k hk hk') hchecked.accepted

theorem Inputs.mem_signers {k : ℕ} : k ∈ inputs.signers i ↔ k < inputs.inputs.length
      ∧ (inputs.hashType k = .all ∨ inputs.hashType k = .single ∧ k = i) := by
  unfold Inputs.signers Inputs.signs
  rw [List.mem_filter, List.mem_range, decide_eq_true_eq]

theorem CheckedItem.publisher_eq (hchecked : CheckedItem env txEnv flags tx inputs)
    (hplain : PlainSigners txEnv tx.toTx inputs i) {k : ℕ} (hk : k < tx.vin.length) :
    publisher env.hashes.hash160 i tx.vin[k].scriptSig k
      = if k ∈ inputs.signers i then some (recordedAs tx.toTx inputs k) else none := by
  have hk' : k < inputs.inputs.length := hchecked.spending.length ▸ hk
  have hinput := hchecked.input hk hk'
  have hinfo : inputs.inputs.getD k ⟨.nonstandard, 0, .none⟩ = inputs.inputs[k] :=
    List.getD_eq_getElem _ _ hk'
  split_ifs with hsigner
  · obtain ⟨-, hsigns⟩ := Inputs.mem_signers.mp hsigner
    obtain ⟨sigOps, hverify⟩ := hchecked.verified k hk
    have hform := hplain k hk hsigner
    unfold Inputs.hashType at hsigns
    unfold Inputs.scriptType at hform
    rw [hinfo] at hsigns hform
    rw [hinput.publisher_eq hchecked.streams hchecked.p2sh hsigns hform hverify, recordedAs,
      List.getD_eq_getElem _ _ hk, Inputs.destination, hinfo]
  have hnot : ¬ (sigHashType tx.vin[k].scriptSig false = .all
      ∨ sigHashType tx.vin[k].scriptSig false = .single ∧ k = i) := by
    intro hsigns
    refine hsigner (Inputs.mem_signers.mpr ⟨hk', ?_⟩)
    rw [Inputs.hashType, hinfo, hinput.hashType]
    exact hsigns
  unfold publisher
  cases extractAddress tx.vin[k].scriptSig with
  | none => rfl
  | some found => exact if_neg hnot

theorem zipIdx_eq_map_range {α : Type} (items : List α) (default : α) :
    items.zipIdx = (List.range items.length).map fun k => (items.getD k default, k) := by
  refine List.ext_getElem (by simp) fun k hk hk' => ?_
  rw [List.length_zipIdx] at hk
  simp [hk]

theorem filterMap_ite {α β : Type} {p : α → Bool} {value : α → β} {items : List α} :
    items.filterMap (fun item => if p item then some (value item) else none)
      = (items.filter p).map value := by
  induction items with
  | nil => rfl
  | cons item items ih =>
    by_cases hp : p item = true
    · rw [List.filterMap_cons, if_pos hp, List.filter_cons_of_pos hp, List.map_cons, ih]
    rw [List.filterMap_cons, if_neg hp, List.filter_cons_of_neg hp, ih]

section

variable (hchecked : CheckedItem env txEnv flags tx inputs)
  (hplain : PlainSigners txEnv tx.toTx inputs i)

include hchecked hplain

theorem CheckedItem.filterMap_publisher :
    tx.vin.zipIdx.filterMap (fun (input, j) => publisher env.hashes.hash160 i input.scriptSig j)
      = (inputs.signers i).map (recordedAs tx.toTx inputs) := by
  rw [zipIdx_eq_map_range tx.vin ⟨⟨0, 0⟩, []⟩, List.filterMap_map, Inputs.signers,
    hchecked.spending.length, ← filterMap_ite]
  refine List.filterMap_congr fun k hmem => ?_
  have hk : k < tx.vin.length := List.mem_range.mp hmem
  have hmember : k ∈ inputs.signers i ↔ inputs.signs k i = true := by
    rw [Inputs.signers, List.mem_filter, List.mem_range, hchecked.spending.length]
    exact and_iff_right hk
  simp only [Function.comp_apply, List.getD_eq_getElem _ _ hk, hchecked.publisher_eq hplain hk,
    hmember]

theorem CheckedItem.mem_publishers {address : Destination} :
    address ∈ publishers env.hashes.hash160 tx.toTx i
      ↔ ∃ w ∈ inputs.signers i, recordedAs tx.toTx inputs w = address
        ∧ ∀ w' ∈ inputs.signers i, w' < w → inputs.destination w' ≠ inputs.destination w := by
  have hfold : publishers env.hashes.hash160 tx.toTx i
      = ((inputs.signers i).map (recordedAs tx.toTx inputs)).foldl
        (keepFirst Destination.address) [] := by
    rw [← hchecked.filterMap_publisher hplain, List.foldl_filterMap]
    unfold publishers
    congr 1
    funext found input
    dsimp only
    cases publisher env.hashes.hash160 i input.1.scriptSig input.2 <;> rfl
  rw [hfold, FirstKept.mem_foldl_keepFirst_nil, List.find?_map, Option.map_eq_some_iff]
  constructor
  · rintro ⟨w, hfound, rfl⟩
    obtain ⟨hmem, -, hfirst⟩ := (find?_eq_some_iff_of_sorted (signers_sorted inputs i)).mp hfound
    refine ⟨w, hmem, rfl, fun w' hmem' hlt heq => ?_⟩
    have hnot := hfirst w' hmem' hlt
    simp [recordedAs_address, heq] at hnot
  rintro ⟨w, hmem, rfl, hfirst⟩
  refine ⟨w, (find?_eq_some_iff_of_sorted (signers_sorted inputs i)).mpr
    ⟨hmem, by simp, fun w' hmem' hlt => ?_⟩, rfl⟩
  simpa [recordedAs_address] using hfirst w' hmem' hlt

/-- The publishers are the destinations that the signers spend just when the kinds agree. -/
theorem CheckedItem.publishers_iff (hcoinbase : tx.isCoinBase = false) :
    (∀ address, address ∈ publishers env.hashes.hash160 tx.toTx i
        ↔ address ∈ spentBySigners txEnv tx.toTx inputs i) ↔ KindsAgree tx.toTx inputs i := by
  have hlength := hchecked.spending.length
  have hspent (k : ℕ) (hk : k < tx.vin.length) : spentDestination txEnv tx.vin[k]
      = if inputs.scriptType k = .scriptHash then .script (inputs.destination k)
        else .key (inputs.destination k) := by
    have hk' : k < inputs.inputs.length := hlength ▸ hk
    rw [(hchecked.input hk hk').spentDestination_eq, Inputs.scriptType, Inputs.destination,
      List.getD_eq_getElem _ _ hk']
  have hsame (w k : ℕ) (hw : w < tx.vin.length) (hk : k < tx.vin.length)
      (hhash : inputs.destination w = inputs.destination k) :
      recordedAs tx.toTx inputs w = spentDestination txEnv tx.vin[k]
        ↔ (startsEmpty tx.vin[w].scriptSig = true ↔ inputs.scriptType k = .scriptHash) := by
    rw [hspent k hk, recordedAs, List.getD_eq_getElem _ _ hw, hhash]
    split_ifs with hstart htype htype <;> simp [hstart, htype]
  have hlt {k : ℕ} (hmem : k ∈ inputs.signers i) : k < tx.vin.length :=
    hlength ▸ (Inputs.mem_signers.mp hmem).1
  constructor
  · intro hequal k hmem w hw hmemW hhash hfirst
    have hk := hlt hmem
    obtain ⟨w', hmemW', hrecorded, hfirst'⟩ := (hchecked.mem_publishers hplain).mp
      ((hequal (spentDestination txEnv tx.vin[k])).mpr ⟨hcoinbase, k, hk, hmem, rfl⟩)
    have hhash' : inputs.destination w' = inputs.destination k := by
      have haddress := congrArg Destination.address hrecorded
      rw [recordedAs_address, hspent k hk] at haddress
      split_ifs at haddress <;> exact Option.some.inj haddress
    have heq : w' = w := by
      rcases Nat.lt_trichotomy w' w with hbefore | heq | hbefore
      · exact absurd hhash' (hfirst w' hmemW' hbefore)
      · exact heq
      · exact absurd (hhash.trans hhash'.symm) (hfirst' w hmemW hbefore)
    subst heq
    exact (hsame w' k hw hk hhash).mp hrecorded
  intro hkinds address
  rw [hchecked.mem_publishers hplain]
  constructor
  · rintro ⟨w, hmem, rfl, hfirst⟩
    have hw := hlt hmem
    exact ⟨hcoinbase, w, hw, hmem,
      ((hsame w w hw hw rfl).mpr (hkinds w hmem w hw hmem rfl hfirst)).symm⟩
  rintro ⟨-, k, hk, hmem, rfl⟩
  cases hfound : (inputs.signers i).find?
      fun w => decide (inputs.destination w = inputs.destination k) with
  | none =>
    have hnone := List.find?_eq_none.mp hfound k hmem
    simp at hnone
  | some w =>
    obtain ⟨hmemW, hhash, hfirst⟩ :=
      (find?_eq_some_iff_of_sorted (signers_sorted inputs i)).mp hfound
    have hhash := of_decide_eq_true hhash
    have hfirst (w' : ℕ) (hmem' : w' ∈ inputs.signers i) (hbefore : w' < w) :
        inputs.destination w' ≠ inputs.destination k :=
      of_decide_eq_false (hfirst w' hmem' hbefore)
    refine ⟨w, hmemW, (hsame w k (hlt hmemW) hk hhash).mpr
      (hkinds k hmem w (hlt hmemW) hmemW hhash hfirst), fun w' hmem' hbefore => ?_⟩
    rw [hhash]
    exact hfirst w' hmem' hbefore

end

theorem exists_signer (hspending : SpendingInputs txEnv tx.toTx inputs)
    (hsigned : inputs.scriptHashAllFound = true ∨ txEnv.params.fixedIn10007 = true
      ∧ i < inputs.inputs.length ∧ inputs.hashType i = .single) : ∃ k, k ∈ inputs.signers i := by
  rcases hsigned with hall | ⟨-, hlt, hsingle⟩
  · obtain ⟨k, hk, htype⟩ := hspending.all hall
    exact ⟨k, Inputs.mem_signers.mpr ⟨hspending.length ▸ hk, .inl htype⟩⟩
  exact ⟨i, Inputs.mem_signers.mpr ⟨hlt, .inr ⟨hsingle, rfl⟩⟩⟩

/-! ## Coinbases -/

/-- The input script of a coinbase is not read as one of an input that signs an output. -/
def ReadsNobody (scriptSig : Bytes) (i : ℕ) : Prop :=
  extractAddress scriptSig = none
    ∨ ¬ (sigHashType scriptSig false = .all ∨ sigHashType scriptSig false = .single ∧ 0 = i)

theorem publishers_coinbase {hash160 : Bytes → Hash160} {tx : Tx} {input : TxIn}
    (hvin : tx.vin = [input]) : publishers hash160 tx i = [] ↔ ReadsNobody input.scriptSig i := by
  have hone : publishers hash160 tx i = (publisher hash160 i input.scriptSig 0).toList := by
    unfold publishers
    rw [hvin]
    cases hread : publisher hash160 i input.scriptSig 0 <;> simp [hread, keepFirst]
  rw [hone]
  unfold publisher ReadsNobody
  cases extractAddress input.scriptSig with
  | none => simp
  | some found =>
    dsimp only
    split_ifs with hsigns <;> simp [hsigns]

theorem exists_input_of_isCoinBase {tx : Tx} (hcoinbase : tx.isCoinBase = true) :
    ∃ input, tx.vin = [input] := by
  unfold Tx.isCoinBase at hcoinbase
  split at hcoinbase
  next input hvin => exact ⟨input, hvin⟩
  · cases hcoinbase

/-! ## Publishers and writers -/

/-- When the publishers of an item are shown as they were checked.  In a coinbase, whose
input spends nothing, nobody may be read off the input script; elsewhere the item has to be
the first of its stream, and the kinds of the signers have to agree. -/
def ShownAsChecked (params : ChainParams) (subscribed : BitVec 128 → Bool) (tx : Tx)
    (inputs : Inputs) (i : ℕ) (stream : BitVec 128) : Prop :=
  if tx.isCoinBase then
    FirstItem params subscribed tx.vout i stream → ∀ input ∈ tx.vin, ReadsNobody input.scriptSig i
  else FirstItem params subscribed tx.vout i stream ∧ KindsAgree tx inputs i

theorem itemStream_metadata {params : ChainParams} {subscribed : BitVec 128 → Bool}
    {stream : BitVec 128} (hitem : itemStream params subscribed script = some stream) :
    (McScript.setScript params script).isOpReturn = true
      ∧ 1 < (McScript.setScript params script).numElements := by
  unfold itemStream at hitem
  dsimp only at hitem
  split at hitem
  next hreturn => exact ⟨hreturn.1, by omega⟩
  · cases hitem

def openStreamTxid : Hash256 := 1 <<< 128

def openStreamAssets : AssetDB :=
  ((AssetDB.initialized .empty .empty).insertEntity .defaults
    ⟨openStreamTxid, -1, Details.specialParam Details.MC_ENT_SPRM_ANYONE_CAN_WRITE [1], [], true⟩
    MC_ENT_TYPE_STREAM).1

def itemScript : Bytes :=
  20 :: MC_DCT_SCRIPT_MULTICHAIN_IDENTIFIER
    ++ MC_DCT_SCRIPT_MULTICHAIN_ENTITY_PREFIX :: putLE 1 16 ++ [OP_DROP]
    ++ 5 :: MC_DCT_SCRIPT_MULTICHAIN_IDENTIFIER
    ++ [MC_DCT_SCRIPT_MULTICHAIN_KEY_PREFIX, 0x6b, OP_DROP, OP_RETURN]

def itemTx (scriptSig : Bytes) : SignedTx :=
  { spendingTx scriptSig with
    vin := [⟨⟨7, 0⟩, scriptSig⟩]
    vout := [⟨0, itemScript⟩]
    length_sequences := rfl }

def itemEnv : TxEnv where
  params := (guardedEnv [sendRow]).params
  script := (guardedEnv [sendRow]).script
  spentScript := fun _ => paidScript
  time := 0
  requireStandard := false
  isDust := fun _ => false

def itemChain : Chain :=
  ⟨(guardedEnv [sendRow]).permissions, openStreamAssets, none⟩

def indexedItem (publisher : Destination) : StreamItem :=
  ⟨0, 1, 0, [publisher]⟩

def itemInputs : Inputs where
  inputs := [⟨.pubkeyHash, 0, .all⟩]
  scriptHashAllFound := true
  rejectIfOpDropOpReturn := false
  checkCachedScript := true
  canGrantAdminMine := [false]
  amounts := []

theorem itemTx_verified (k : ℕ) (hk : k < (itemTx paidScriptSig).vin.length) :
    ∃ sigOps, verifyScript ((guardedEnv [sendRow]).verifyEnv (itemTx paidScriptSig) k) .mandatory
      (itemTx paidScriptSig).vin[k].scriptSig
      (itemEnv.spentScript (itemTx paidScriptSig).vin[k].prevout) = .ok sigOps := by
  have hverify : verifyScript ((guardedEnv [sendRow]).verifyEnv (itemTx paidScriptSig) 0)
      .mandatory paidScriptSig paidScript
        = .ok [⟨true, [⟨[0x30, 0x01], paidKey, paidScript⟩]⟩] := by decide +kernel
  obtain rfl := Nat.lt_one_iff.mp hk
  exact ⟨_, hverify⟩

theorem itemTx_plain : PlainSigners itemEnv (itemTx paidScriptSig).toTx itemInputs 0 := by
  intro k hk _ htype
  obtain rfl := Nat.lt_one_iff.mp hk
  cases htype

end Amberchain.Wallet
