import Amberchain.Script.MultiElement
import Amberchain.Transaction.Messages

/-!
# What a block signature covers

The signer's output is the first one with a signature and is not part of what is
signed, so that the verifier finds it and has the same root.  By that root everything but
the unspendable outputs of the coinbase is covered.
-/

namespace Amberchain.Miner

open Transaction (TxOut)

theorem isUnspendable_opReturn (rest : Bytes) : isUnspendable (OP_RETURN :: rest) = true := by
  rfl

theorem getOp_pushData {data : Bytes} (hlength : data.length ≤ 0xffff) :
    ∃ opcode, getOp (pushData data) = some ⟨opcode, data, []⟩ := by
  have hshort : data.length < 2 ^ 32 := by omega
  obtain ⟨opcode, -, hop⟩ := Script.getOp_pushData_append hshort []
  rw [List.append_nil] at hop
  exact ⟨opcode, hop⟩

theorem pushData_ne_nil (data : Bytes) : pushData data ≠ [] := by
  unfold pushData
  split_ifs <;> exact List.cons_ne_nil _ _

theorem finish_step_afterReturn (params : ChainParams) {scan : McScript.Scan} (op : ScriptOp)
    (hafter : scan.afterReturn = true) (helements : scan.script.elements = []) :
    ∃ script : McScript, script.elements = [] ∧
      (scan.step params op).finish = script.addElement op.data := by
  unfold McScript.Scan.step McScript.Scan.finish
  rw [if_pos hafter]
  let dirty := (McScript.nextPush params op.opcode op.data).isNone ∧ op.opcode ≠ OP_RETURN ∧
    op.opcode ≠ OP_DROP
  exact ⟨{ scan.script with isDirty := (scan.script.isDirty || dirty) && scan.script.isOpReturn },
    helements, rfl⟩

theorem setScript_opReturn (params : ChainParams) {data : Bytes} (hlength : data.length ≤ 0xffff) :
    ∃ script : McScript, script.elements = [] ∧
      McScript.setScript params (OP_RETURN :: pushData data) = script.addElement data := by
  obtain ⟨opcode, hop⟩ := getOp_pushData hlength
  have hreturn : getOp (OP_RETURN :: pushData data) = some ⟨OP_RETURN, [], pushData data⟩ := rfl
  obtain ⟨fuel, hfuel⟩ : ∃ fuel, (pushData data).length = fuel + 1 :=
    Nat.exists_eq_succ_of_ne_zero fun hzero =>
      pushData_ne_nil data (List.length_eq_zero_iff.mp hzero)
  unfold McScript.setScript
  rw [List.length_cons, hfuel, McScript.scanFrom, hreturn]
  dsimp only
  rw [McScript.scanFrom, if_neg (pushData_ne_nil data), hop]
  exact finish_step_afterReturn params ⟨opcode, data, []⟩ rfl rfl

theorem changeFirst_of_find {α : Type} {property : α → Bool} {list : List α} {found : α}
    (hfind : list.find? property = some found) :
    ∃ front back, list = front ++ found :: back ∧ (∀ other ∈ front, property other = false) ∧
      property found = true ∧
      ∀ change, changeFirst property change list = front ++ change found :: back := by
  induction list with
  | nil => cases hfind
  | cons head rest ih =>
    cases hhead : property head with
    | true =>
      rw [List.find?_cons_of_pos hhead] at hfind
      cases hfind
      refine ⟨[], rest, rfl, fun other hmem => absurd hmem List.not_mem_nil, hhead, fun change => ?_⟩
      rw [changeFirst, if_pos hhead]
      rfl
    | false =>
      rw [List.find?_cons_of_neg (by rw [hhead]; exact Bool.false_ne_true)] at hfind
      obtain ⟨front, back, hlist, hfront, hfound, hchange⟩ := ih hfind
      refine ⟨head :: front, back, by rw [hlist]; rfl, fun other hmem => ?_, hfound,
        fun change => ?_⟩
      · cases List.mem_cons.mp hmem with
        | inl heq => rw [heq, hhead]
        | inr hin => exact hfront other hin
      rw [changeFirst, if_neg (by rw [hhead]; exact Bool.false_ne_true), hchange]
      rfl

theorem changeFirst_append {α : Type} {property : α → Bool} {front back : List α} {found : α}
    (hfront : ∀ other ∈ front, property other = false) (hfound : property found = true)
    (change : α → α) :
    changeFirst property change (front ++ found :: back) = front ++ change found :: back := by
  induction front with
  | nil =>
    rw [List.nil_append, changeFirst, if_pos hfound]
    rfl
  | cons head front ih =>
    rw [List.cons_append, changeFirst, if_neg, ih fun other hmem =>
      hfront other (.tail _ hmem)]
    · rfl
    rw [hfront head (.head _)]
    exact Bool.false_ne_true

def signatureElement (sig : Bytes) (hashType : BitVec 32) (key : Bytes) : Bytes :=
  MC_DCT_SCRIPT_FREE_DATA_IDENTIFIER ++ MC_DCT_SCRIPT_MULTICHAIN_BLOCK_SIGNATURE_PREFIX ::
    (putLE sig.length 1 ++ (sig ++ (putLE hashType.toNat 1 ++ (putLE key.length 1 ++ key))))

theorem length_signatureElement {sig key : Bytes} (hashType : BitVec 32)
    (hsig : sig.length ≤ 0xff) (hkey : key.length ≤ 0xff) :
    (signatureElement sig hashType key).length ≤ 0xffff := by
  have hidentifier : MC_DCT_SCRIPT_FREE_DATA_IDENTIFIER.length = 3 := rfl
  unfold signatureElement
  simp only [List.length_append, List.length_cons, length_putLE, hidentifier]
  omega

namespace SignEnv

variable {H K : Type} [DecidableEq H] {env : SignEnv H K} {block signed : Block H}

structure EcdsaCorrect (env : SignEnv H K) : Prop where
  valid : ∀ {pub key}, env.getKey pub = some key → isValidPubKey pub = true
  size : ∀ key hash, (env.sign key hash).length ≤ 72
  verifies : ∀ {pub key}, env.getKey pub = some key →
    ∀ hash, env.verify pub hash (env.sign key hash) = true

structure HashInjective (env : SignEnv H K) : Prop where
  header : Function.Injective env.headerHash
  tx : Function.Injective env.txHash
  node : Function.Injective2 env.nodeHash

def NoOtherSignature (env : SignEnv H K) (block : Block H) : Prop :=
  ∀ coinBase, block.vtx.find? env.isCoinBase = some coinBase →
    ∀ out ∈ env.keptOutputs coinBase.vout, env.outputSignature out = none

theorem length_le_of_isValid {pub : Bytes} (hvalid : isValidPubKey pub = true) :
    pub ≠ [] ∧ pub.length ≤ 65 := by
  cases pub with
  | nil => cases hvalid
  | cons header rest =>
    refine ⟨List.cons_ne_nil _ _, ?_⟩
    have hlength := (of_decide_eq_true hvalid).2
    unfold pubKeyLength at hlength
    rw [List.length_cons]
    split_ifs at hlength <;> omega

theorem signatureScript_eq {sig key : Bytes} (hashType : BitVec 32) (hsig : sig.length ≤ 0xff)
    (hkey : key.length ≤ 0xff) : signatureScript sig hashType key =
      OP_RETURN :: pushData (signatureElement sig hashType key) := by
  unfold signatureScript McScript.setBlockSignature
  rw [if_neg (by omega)]
  rfl

omit [DecidableEq H] in
theorem outputSignature_signatureScript {sig key : Bytes} (hsig : sig.length ≤ 0xff)
    (hkey : key.length ≤ 0xff) (hne : key ≠ []) (value : ℤ) (hashType : BitVec 32) :
    env.outputSignature ⟨value, signatureScript sig hashType key⟩ =
      some ⟨sig, Transaction.lowByte hashType, key⟩ := by
  obtain ⟨script, helements, hscript⟩ :=
    setScript_opReturn env.params (length_signatureElement hashType hsig hkey)
  have hcurrent : (script.addElement (signatureElement sig hashType key)).setElement 0 =
      script.addElement (signatureElement sig hashType key) := by
    unfold McScript.setElement McScript.addElement
    rw [helements]
    rfl
  have hcount : (script.addElement (signatureElement sig hashType key)).numElements = 1 := by
    unfold McScript.numElements McScript.addElement
    rw [helements]
    rfl
  have hread := @Transaction.getBlockSignature_own script sig key hashType 255 255 hsig hkey
  rw [if_pos ⟨hsig, hkey⟩] at hread
  unfold outputSignature
  dsimp only
  rw [signatureScript_eq hashType hsig hkey, hscript, hcount, List.range_one, List.findSome?_singleton, hcurrent]
  unfold signatureElement
  unfold McScript.addTagged at hread
  rw [hread]
  exact if_neg hne

theorem verifiedHash_congr {first second : Block H} (hversion : first.nVersion = second.nVersion)
    (hprev : first.hashPrevBlock = second.hashPrevBlock) (htime : first.nTime = second.nTime)
    (hbits : first.nBits = second.nBits)
    (hroot : MerkleTree.root? env.nodeHash (env.leaves MERKLETREE_NO_COINBASE_OP_RETURN first.vtx) =
      MerkleTree.root? env.nodeHash (env.leaves MERKLETREE_NO_COINBASE_OP_RETURN second.vtx)) :
    env.verifiedHash first = env.verifiedHash second := by
  unfold MerkleTree.root? at hroot
  unfold verifiedHash withoutSignature withMerkleRoot buildMerkleTree
  dsimp only
  rw [hversion, hprev, htime, hbits, hroot]

theorem treeTx_append {tx : Tx H} {out : TxOut} (hcoin : env.isCoinBase tx = true)
    (hout : isUnspendable out.scriptPubKey = true) (vout : List TxOut) :
    env.treeTx MERKLETREE_NO_COINBASE_OP_RETURN { tx with vout := vout ++ [out] } =
      env.treeTx MERKLETREE_NO_COINBASE_OP_RETURN { tx with vout := vout } := by
  have hsame : ∀ vout, env.isCoinBase { tx with vout := vout } = true := fun _ => hcoin
  unfold treeTx
  rw [if_pos ⟨rfl, hsame _⟩, if_pos ⟨rfl, hsame _⟩, List.filter_append,
    List.filter_cons_of_neg (by rw [hout]; exact Bool.false_ne_true), List.filter_nil,
    List.append_nil]

structure Signs (env : SignEnv H K) (block signed : Block H) (front back : List (Tx H))
    (coinBase : Tx H) (key : K) : Prop where
  vtx : block.vtx = front ++ coinBase :: back
  find : block.vtx.find? env.isCoinBase = some coinBase
  notBefore : ∀ tx ∈ front, env.isCoinBase tx = false
  isCoinBase : env.isCoinBase coinBase = true
  getKey : env.getKey block.vSigner = some key
  nVersion : signed.nVersion = block.nVersion
  hashPrevBlock : signed.hashPrevBlock = block.hashPrevBlock
  nTime : signed.nTime = block.nTime
  nBits : signed.nBits = block.nBits
  signedVtx : signed.vtx = front ++ { coinBase with
    vout := env.keptOutputs coinBase.vout ++ [⟨0, signatureScript
      (env.sign key (env.verifiedHash { block with
        vtx := front ++ { coinBase with vout := env.keptOutputs coinBase.vout } :: back }))
      BLOCKSIGHASH_NO_SIGNATURE_AND_NONCE block.vSigner⟩] } :: back

theorem createBlockSignature_signs (hmulti : env.params.isProtocolMultichain = true)
    (hcreate : (env.createBlockSignature BLOCKSIGHASH_NO_SIGNATURE_AND_NONCE block).1 = true) :
    ∃ front back coinBase key, Signs env block
      (env.createBlockSignature BLOCKSIGHASH_NO_SIGNATURE_AND_NONCE block).2 front back coinBase
      key := by
  unfold createBlockSignature at hcreate ⊢
  rw [hmulti, Bool.not_true, if_neg Bool.false_ne_true] at hcreate ⊢
  by_cases hsigner : block.vSigner = []
  · rw [if_pos hsigner] at hcreate
    cases hcreate
  rw [if_neg hsigner] at hcreate ⊢
  cases hfind : block.vtx.find? env.isCoinBase with
  | none =>
    rw [hfind] at hcreate
    cases hcreate
  | some coinBase =>
    obtain ⟨front, back, hvtx, hfront, hcoin, hchange⟩ := changeFirst_of_find hfind
    rw [hfind] at hcreate
    dsimp only at hcreate ⊢
    rw [hchange] at hcreate ⊢
    unfold addSignature at hcreate ⊢
    have hvSigner : ∀ block : Block H, (env.withoutSignature block).vSigner = block.vSigner :=
      fun _ => rfl
    rw [hvSigner] at hcreate ⊢
    cases hkey : env.getKey block.vSigner with
    | none =>
      rw [hkey] at hcreate
      cases hcreate
    | some key =>
      refine ⟨front, back, coinBase, key, hvtx, hfind, hfront, hcoin, hkey, rfl, rfl, rfl, rfl, ?_⟩
      exact @changeFirst_append (Tx H) env.isCoinBase front back
        { coinBase with vout := env.keptOutputs coinBase.vout } hfront hcoin _

theorem findSigner_of_first {front back : List (Tx H)} {coinBase : Tx H}
    {signature : McScript.BlockSignature} (hmulti : env.params.isProtocolMultichain = true)
    (hvtx : block.vtx = front ++ coinBase :: back)
    (hfront : ∀ tx ∈ front, env.isCoinBase tx = false) (hcoin : env.isCoinBase coinBase = true)
    (hfound : coinBase.vout.findSome? env.outputSignature = some signature) :
    env.findSigner block = some signature := by
  have hnone : front.filter env.isCoinBase = [] :=
    List.filter_eq_nil_iff.mpr fun tx hmem => by rw [hfront tx hmem]; exact Bool.false_ne_true
  unfold findSigner
  rw [if_pos hmulti, hvtx, List.filter_append, hnone, List.nil_append,
    List.filter_cons_of_pos hcoin, List.findSome?_cons, hfound]

theorem restoreMerkleTree_toHeader (block : Block H) :
    (env.restoreMerkleTree block).toHeader = block.toHeader := by
  unfold restoreMerkleTree
  split
  · rfl
  rfl

/-- A block with a valid signature as the first one is accepted with its header as it was. -/
theorem verifyBlockSignature_of_found {signature : McScript.BlockSignature}
    (hfound : env.findSigner block = some signature)
    (htype : signature.hashType = BLOCKSIGHASH_NO_SIGNATURE_AND_NONCE.toNat)
    (hvalid : isValidPubKey signature.key = true)
    (hverify : env.verify signature.key (env.verifiedHash block) signature.sig = true) :
    ∃ checked, env.verifyBlockSignature true block = (true, checked) ∧
      checked.toHeader = block.toHeader := by
  let marked : Block H := { block with
    nMerkleTreeType := MERKLETREE_FULL, nSigHashType := BLOCKSIGHASH_NONE }
  have hmarked : env.findSigner marked = some signature := hfound
  have hheader : signature.hashType ≠ BLOCKSIGHASH_HEADER.toNat := by
    rw [htype]
    decide
  refine ⟨env.restoreMerkleTree { marked with vSigner := signature.key }, ?_,
    restoreMerkleTree_toHeader _⟩
  unfold verifyBlockSignature
  rw [if_neg fun hnot => by cases hnot.1]
  dsimp only
  rw [hmarked]
  dsimp only
  rw [if_neg hheader, if_pos htype]
  unfold checkSignature
  rw [hvalid, Bool.not_true, if_neg Bool.false_ne_true]
  have hsame : env.verifiedHash { marked with vSigner := signature.key } = env.verifiedHash block :=
    rfl
  rw [hsame, hverify, Bool.not_true, if_neg Bool.false_ne_true]

theorem verifyBlockSignature_of_none (hmulti : env.params.isProtocolMultichain = false)
    (block : Block H) : ∃ checked, env.verifyBlockSignature true block = (true, checked) ∧
      checked.toHeader = block.toHeader := by
  unfold verifyBlockSignature
  unfold findSigner
  rw [hmulti]
  exact ⟨_, if_neg fun hboth => Bool.false_ne_true hboth.1, rfl⟩

/-- A block is refused when the first signature has no valid key. -/
theorem verifyBlockSignature_of_invalid {signature : McScript.BlockSignature}
    (hfound : env.findSigner block = some signature)
    (htype : signature.hashType = BLOCKSIGHASH_NO_SIGNATURE_AND_NONCE.toNat)
    (hinvalid : isValidPubKey signature.key = false) :
    (env.verifyBlockSignature true block).1 = false := by
  let marked : Block H := { block with
    nMerkleTreeType := MERKLETREE_FULL, nSigHashType := BLOCKSIGHASH_NONE }
  have hmarked : env.findSigner marked = some signature := hfound
  have hheader : signature.hashType ≠ BLOCKSIGHASH_HEADER.toNat := by
    rw [htype]
    decide
  unfold verifyBlockSignature
  rw [if_neg fun hnot => by cases hnot.1]
  dsimp only
  rw [hmarked]
  dsimp only
  rw [if_neg hheader, if_pos htype]
  unfold checkSignature
  rw [hinvalid, Bool.not_false, if_pos rfl]

theorem verify_createBlockSignature (hecdsa : env.EcdsaCorrect)
    (hcreate : (env.createBlockSignature BLOCKSIGHASH_NO_SIGNATURE_AND_NONCE block).1 = true)
    (hother : env.NoOtherSignature block) (nonce : BitVec 32) :
    ∃ checked, env.verifyBlockSignature true
        { (env.createBlockSignature BLOCKSIGHASH_NO_SIGNATURE_AND_NONCE block).2 with
          nNonce := nonce } = (true, checked) ∧ checked.toHeader =
        { (env.createBlockSignature BLOCKSIGHASH_NO_SIGNATURE_AND_NONCE block).2.toHeader with
          nNonce := nonce } := by
  cases hmulti : env.params.isProtocolMultichain with
  | false => exact verifyBlockSignature_of_none hmulti _
  | true =>
    obtain ⟨front, back, coinBase, key, hsigns⟩ := createBlockSignature_signs hmulti hcreate
    generalize (env.createBlockSignature BLOCKSIGHASH_NO_SIGNATURE_AND_NONCE block).2 = signed at hsigns
    have hvalid := hecdsa.valid hsigns.getKey
    obtain ⟨hne, hkeyLength⟩ := length_le_of_isValid hvalid
    have hsize := hecdsa.size key (env.verifiedHash { block with
      vtx := front ++ { coinBase with vout := env.keptOutputs coinBase.vout } :: back })
    have hnone : (env.keptOutputs coinBase.vout).findSome? env.outputSignature = none :=
      List.findSome?_eq_none_iff.mpr (hother coinBase hsigns.find)
    have hfound := @findSigner_of_first H K _ env { signed with nNonce := nonce } front back _ _
      hmulti hsigns.signedVtx hsigns.notBefore hsigns.isCoinBase (by
        rw [List.findSome?_append, hnone, List.findSome?_singleton,
          outputSignature_signatureScript (Nat.le_trans hsize (by decide))
            (Nat.le_trans hkeyLength (by decide)) hne]
        rfl)
    have hsame : env.verifiedHash { signed with nNonce := nonce } = env.verifiedHash { block with
        vtx := front ++ { coinBase with vout := env.keptOutputs coinBase.vout } :: back } := by
      refine verifiedHash_congr hsigns.nVersion hsigns.hashPrevBlock hsigns.nTime hsigns.nBits ?_
      unfold leaves
      rw [hsigns.signedVtx, List.map_append, List.map_append, List.map_cons, List.map_cons,
        treeTx_append hsigns.isCoinBase]
      rw [signatureScript_eq _ (Nat.le_trans hsize (by decide))
        (Nat.le_trans hkeyLength (by decide))]
      exact isUnspendable_opReturn _
    exact verifyBlockSignature_of_found hfound rfl hvalid
      (by rw [hsame]; exact hecdsa.verifies hsigns.getKey _)

def spendable (vout : List TxOut) : List TxOut :=
  vout.filter fun out => !isUnspendable out.scriptPubKey

/-- The same transactions, or coinbases that differ in unspendable outputs only. -/
def SameTx (env : SignEnv H K) (tx other : Tx H) : Prop :=
  tx = other ∨ env.isCoinBase tx = true ∧ env.isCoinBase other = true ∧
    { tx with vout := spendable tx.vout } = { other with vout := spendable other.vout }

/-- Blocks that differ in their nonces, their roots and unspendable outputs of coinbases
only. -/
structure Covered (env : SignEnv H K) (first second : Block H) : Prop where
  nVersion : first.nVersion = second.nVersion
  hashPrevBlock : first.hashPrevBlock = second.hashPrevBlock
  nTime : first.nTime = second.nTime
  nBits : first.nBits = second.nBits
  vtx : List.Forall₂ (SameTx env) first.vtx second.vtx

/-- No level of the tree ends with two equal nodes, and no transaction has the hash of two
nodes. -/
def Unambiguous (env : SignEnv H K) (block : Block H) : Prop :=
  MerkleTree.mutated env.nodeHash (env.leaves MERKLETREE_NO_COINBASE_OP_RETURN block.vtx) = false ∧
    ∀ hash ∈ env.leaves MERKLETREE_NO_COINBASE_OP_RETURN block.vtx, ∀ left right,
      hash ≠ env.nodeHash left right

theorem isCoinBase_treeTx (treeType : BitVec 32) (tx : Tx H) :
    env.isCoinBase (env.treeTx treeType tx) = env.isCoinBase tx := by
  unfold treeTx
  split
  · rfl
  rfl

theorem sameTx_of_treeTx {tx other : Tx H} (hsame : env.treeTx MERKLETREE_NO_COINBASE_OP_RETURN tx =
      env.treeTx MERKLETREE_NO_COINBASE_OP_RETURN other) : SameTx env tx other := by
  have hcoin := congrArg env.isCoinBase hsame
  rw [isCoinBase_treeTx, isCoinBase_treeTx] at hcoin
  unfold treeTx at hsame
  cases hown : env.isCoinBase tx with
  | true =>
    rw [hown] at hcoin hsame
    rw [← hcoin] at hsame
    exact .inr ⟨hown, hcoin.symm, hsame⟩
  | false =>
    rw [hown] at hcoin hsame
    rw [← hcoin] at hsame
    exact .inl hsame

theorem forall₂_of_map_eq {α β : Type} {f : α → β} {related : α → α → Prop}
    (hrelated : ∀ {a b}, f a = f b → related a b) :
    ∀ {first second : List α}, first.map f = second.map f → List.Forall₂ related first second
  | [], [], _ => .nil
  | [], _ :: _, hmap => by cases hmap
  | _ :: _, [], hmap => by cases hmap
  | _ :: _, _ :: _, hmap =>
    .cons (hrelated (List.cons.inj hmap).1) (forall₂_of_map_eq hrelated (List.cons.inj hmap).2)

theorem vtx_ne_nil_of_findSigner (hsigned : (env.findSigner block).isSome) : block.vtx ≠ [] := by
  intro hnil
  unfold findSigner at hsigned
  rw [hnil] at hsigned
  split at hsigned
  · cases hsigned
  cases hsigned

/-- Signed blocks with one verified hash are the same but for what the signature leaves
out. -/
theorem covered_of_verifiedHash {first second : Block H} (hhash : env.HashInjective)
    (hfirst : (env.findSigner first).isSome) (hsecond : (env.findSigner second).isSome)
    (hsame : env.verifiedHash first = env.verifiedHash second)
    (hshape : first.vtx.length = second.vtx.length ∨
      Unambiguous env first ∧ Unambiguous env second) : Covered env first second := by
  have hheader := hhash.header hsame
  have hne : env.leaves MERKLETREE_NO_COINBASE_OP_RETURN first.vtx ≠ [] :=
    fun hnil => vtx_ne_nil_of_findSigner hfirst (List.map_eq_nil_iff.mp hnil)
  have hne' : env.leaves MERKLETREE_NO_COINBASE_OP_RETURN second.vtx ≠ [] :=
    fun hnil => vtx_ne_nil_of_findSigner hsecond (List.map_eq_nil_iff.mp hnil)
  have hroots : MerkleTree.root? env.nodeHash
        (env.leaves MERKLETREE_NO_COINBASE_OP_RETURN first.vtx) =
      MerkleTree.root? env.nodeHash
        (env.leaves MERKLETREE_NO_COINBASE_OP_RETURN second.vtx) := by
    have hroot := congrArg Header.hashMerkleRoot hheader
    change (MerkleTree.root? _ _).getD env.zero = (MerkleTree.root? _ _).getD env.zero at hroot
    have hsome : ∀ {level : List H}, level ≠ [] →
        ∃ root, MerkleTree.root? env.nodeHash level = some root := by
      intro level hlevel
      exact ⟨_, List.getLast?_eq_some_getLast (MerkleTree.tree_ne_nil hlevel)⟩
    obtain ⟨root, hroot₁⟩ := hsome hne
    obtain ⟨root', hroot₂⟩ := hsome hne'
    rw [hroot₁, hroot₂] at hroot ⊢
    exact congrArg some hroot
  have hleaves : env.leaves MERKLETREE_NO_COINBASE_OP_RETURN first.vtx =
      env.leaves MERKLETREE_NO_COINBASE_OP_RETURN second.vtx := by
    cases hshape with
    | inl hlength =>
      refine MerkleTree.eq_of_root_of_length hhash.node ?_ hroots
      unfold leaves
      rw [List.length_map, List.length_map, hlength]
    | inr hboth =>
      have hoff : ∀ {leaves other : List H}, (∀ hash ∈ leaves, ∀ left right,
          hash ≠ env.nodeHash left right) →
          ∀ hash ∈ leaves, hash ∉ MerkleTree.inner env.nodeHash other := by
        intro leaves other hleaf hash hmem hinner
        obtain ⟨left, right, hnode⟩ := MerkleTree.exists_node_of_mem_inner hinner
        exact hleaf hash hmem left right hnode
      exact MerkleTree.eq_of_root_of_not_mutated hhash.node hne hne' (hoff hboth.1.2)
        (hoff hboth.2.2) hboth.1.1 hboth.2.1 hroots
  have hversion := congrArg Header.nVersion hheader
  have hprev := congrArg Header.hashPrevBlock hheader
  have htime := congrArg Header.nTime hheader
  have hbits := congrArg Header.nBits hheader
  exact ⟨hversion, hprev, htime, hbits,
    forall₂_of_map_eq (fun heq => sameTx_of_treeTx (hhash.tx heq)) hleaves⟩

/-- A block that is signed is accepted with any nonce and keeps its header, if the signer
leaves no other signature in the coinbase; and what has been signed is covered: signed
blocks of as many transactions, or with unambiguous trees, have one verified hash only when
they differ at most in their nonces and in unspendable outputs of coinbases. -/
theorem signature_verifies_and_covers (hecdsa : env.EcdsaCorrect) (hhash : env.HashInjective) :
    (∀ block nonce, (env.createBlockSignature BLOCKSIGHASH_NO_SIGNATURE_AND_NONCE block).1 = true →
      env.NoOtherSignature block → ∃ checked, env.verifyBlockSignature true
          { (env.createBlockSignature BLOCKSIGHASH_NO_SIGNATURE_AND_NONCE block).2 with
            nNonce := nonce } = (true, checked) ∧ checked.toHeader =
          { (env.createBlockSignature BLOCKSIGHASH_NO_SIGNATURE_AND_NONCE block).2.toHeader with
            nNonce := nonce }) ∧
      ∀ first second : Block H, (env.findSigner first).isSome → (env.findSigner second).isSome →
        env.verifiedHash first = env.verifiedHash second →
        first.vtx.length = second.vtx.length ∨ Unambiguous env first ∧ Unambiguous env second →
        Covered env first second :=
  ⟨fun _ nonce hcreate hother => verify_createBlockSignature hecdsa hcreate hother nonce,
    fun _ _ hfirst hsecond hsame hshape =>
      covered_of_verifiedHash hhash hfirst hsecond hsame hshape⟩

omit [DecidableEq H] in
theorem mem_of_mem_keptOutputs {vout : List TxOut} {out : TxOut}
    (hout : out ∈ env.keptOutputs vout) : out ∈ vout := by
  obtain ⟨marked, hmarked, rfl⟩ := List.mem_map.mp hout
  exact List.mem_of_getElem? (List.mem_zipIdx_iff_getElem?.mp (List.mem_filter.mp hmarked).1)

theorem createBlockSignature_fst {key : K} {coinBase : Tx H}
    (hkey : env.getKey block.vSigner = some key) (hsigner : block.vSigner ≠ [])
    (hfind : block.vtx.find? env.isCoinBase = some coinBase) :
    (env.createBlockSignature BLOCKSIGHASH_NO_SIGNATURE_AND_NONCE block).1 = true := by
  unfold createBlockSignature
  cases env.params.isProtocolMultichain with
  | false => rfl
  | true =>
    rw [Bool.not_true, if_neg Bool.false_ne_true, if_neg hsigner, hfind]
    change (addSignature env _ _ _).1 = true
    rw [addSignature]
    dsimp only [withoutSignature, withMerkleRoot, buildMerkleTree]
    rw [hkey]
    dsimp only
    rw [if_pos rfl]

end SignEnv

/-- Hashes that tell everything apart. -/
inductive FreeHash where
  | zero
  | header (header : Header FreeHash)
  | tx (tx : Tx FreeHash)
  | node (left right : FreeHash)

noncomputable instance : DecidableEq FreeHash :=
  Classical.decEq FreeHash

def freeEnv : SignEnv FreeHash Unit where
  params := .defaults
  permissionsBlock := 1
  zero := .zero
  headerHash := .header
  txHash := .tx
  nodeHash := .node
  getKey := fun pub => if isValidPubKey pub then some () else none
  sign := fun _ _ => [1]
  verify := fun _ _ sig => sig = [1]

theorem ecdsaCorrect_freeEnv : freeEnv.EcdsaCorrect where
  valid := fun {pub} _ hkey => by
    by_contra hnot
    change (if isValidPubKey pub then some () else none) = _ at hkey
    rw [if_neg hnot] at hkey
    cases hkey
  size := fun _ _ => Nat.le_of_ble_eq_true rfl
  verifies := fun _ _ => rfl

theorem hashInjective_freeEnv : freeEnv.HashInjective where
  header := fun _ _ heq => FreeHash.header.inj heq
  tx := fun _ _ heq => FreeHash.tx.inj heq
  node := fun _ _ _ _ heq => FreeHash.node.inj heq

def freeCoinBase (vout : List TxOut) : Tx FreeHash where
  nVersion := 1
  vin := [⟨.zero, 0xffffffff, [], 0⟩]
  vout := vout
  nLockTime := 0

theorem isCoinBase_freeCoinBase (vout : List TxOut) :
    freeEnv.isCoinBase (freeCoinBase vout) = true :=
  decide_eq_true ⟨rfl, rfl⟩

/-- A template with some transactions behind its coinbase. -/
def freeBlock (vout : List TxOut) (rest : List (Tx FreeHash)) : Block FreeHash where
  nVersion := 3
  hashPrevBlock := .node .zero .zero
  hashMerkleRoot := .zero
  nTime := 1
  nBits := 1
  nNonce := 0
  vtx := freeCoinBase vout :: rest
  vMerkleTree := []
  nSigHashType := BLOCKSIGHASH_NONE
  nMerkleTreeType := MERKLETREE_FULL
  vSigner := 2 :: List.replicate 32 0

theorem find_freeBlock (vout : List TxOut) (rest : List (Tx FreeHash)) :
    (freeBlock vout rest).vtx.find? freeEnv.isCoinBase = some (freeCoinBase vout) :=
  List.find?_cons_of_pos (isCoinBase_freeCoinBase vout)

theorem create_freeBlock (vout : List TxOut) (rest : List (Tx FreeHash)) :
    (freeEnv.createBlockSignature BLOCKSIGHASH_NO_SIGNATURE_AND_NONCE (freeBlock vout rest)).1 =
      true :=
  @SignEnv.createBlockSignature_fst FreeHash Unit _ freeEnv _ () _ rfl (List.cons_ne_nil _ _)
    (find_freeBlock vout rest)

def freeSignature : TxOut :=
  ⟨0, signatureScript [1] BLOCKSIGHASH_NO_SIGNATURE_AND_NONCE (2 :: List.replicate 32 0)⟩

theorem findSigner_freeSignature (rest : List (Tx FreeHash)) (nonce : BitVec 32) :
    (freeEnv.findSigner { freeBlock [freeSignature] rest with nNonce := nonce }).isSome := by
  have hread := @SignEnv.outputSignature_signatureScript FreeHash Unit freeEnv [1]
    (2 :: List.replicate 32 0) (by decide) (by decide) (List.cons_ne_nil _ _) 0
    BLOCKSIGHASH_NO_SIGNATURE_AND_NONCE
  have hfound := @SignEnv.findSigner_of_first FreeHash Unit _ freeEnv
    { freeBlock [freeSignature] rest with nNonce := nonce } [] rest _ _ rfl rfl
    (fun _ hmem => absurd hmem List.not_mem_nil) (isCoinBase_freeCoinBase [freeSignature])
    (by
      exact hread)
  rw [hfound]
  rfl

/-- A template with one output is signed and accepted with another nonce, and with two nonces
a signed block is the same. -/
theorem signature_verifies_and_covers_free : (∃ checked, freeEnv.verifyBlockSignature true
        { (freeEnv.createBlockSignature BLOCKSIGHASH_NO_SIGNATURE_AND_NONCE
          (freeBlock [⟨50, [OP_1]⟩] [])).2 with nNonce := 7 } = (true, checked)) ∧
      SignEnv.Covered freeEnv { freeBlock [freeSignature] [] with nNonce := 5 }
        { freeBlock [freeSignature] [] with nNonce := 7 } := by
  obtain ⟨haccepted, hcovered⟩ :=
    SignEnv.signature_verifies_and_covers ecdsaCorrect_freeEnv hashInjective_freeEnv
  have hother : freeEnv.NoOtherSignature (freeBlock [⟨50, [OP_1]⟩] []) := by
    intro coinBase hfind out hout
    rw [find_freeBlock] at hfind
    cases hfind
    rw [List.mem_singleton.mp (SignEnv.mem_of_mem_keptOutputs hout)]
    rfl
  obtain ⟨checked, hchecked, _⟩ :=
    haccepted (freeBlock [⟨50, [OP_1]⟩] []) 7 (create_freeBlock _ _) hother
  exact ⟨⟨checked, hchecked⟩, hcovered _ _ (findSigner_freeSignature [] 5)
    (findSigner_freeSignature [] 7) rfl (.inl rfl)⟩

/-- An output that has a signature with a key that is none. -/
def decoy : TxOut :=
  ⟨1, pushData (signatureElement [] BLOCKSIGHASH_NO_SIGNATURE_AND_NONCE [0]) ++ [OP_DROP]⟩

/-- The verifier takes the first signature, which the signer may have left in the coinbase, and
a repeated last transaction is not covered. -/
theorem signature_not_verified : freeEnv.EcdsaCorrect ∧ freeEnv.HashInjective ∧
      (∃ block, (freeEnv.createBlockSignature BLOCKSIGHASH_NO_SIGNATURE_AND_NONCE block).1 = true ∧
        (freeEnv.verifyBlockSignature true
          (freeEnv.createBlockSignature BLOCKSIGHASH_NO_SIGNATURE_AND_NONCE block).2).1 = false) ∧
      ∃ first second, (freeEnv.findSigner first).isSome ∧ (freeEnv.findSigner second).isSome ∧
        freeEnv.verifiedHash first = freeEnv.verifiedHash second ∧
        ¬ SignEnv.Covered freeEnv first second := by
  refine ⟨ecdsaCorrect_freeEnv, hashInjective_freeEnv,
    ⟨freeBlock [decoy] [], create_freeBlock _ _, ?_⟩,
    ⟨{ freeBlock [freeSignature] [freeCoinBase [], freeCoinBase []] with nNonce := 0 },
      { freeBlock [freeSignature] [freeCoinBase [], freeCoinBase [], freeCoinBase []] with
        nNonce := 0 }, findSigner_freeSignature _ 0, findSigner_freeSignature _ 0, ?_, ?_⟩⟩
  · obtain ⟨front, back, coinBase, key, hsigns⟩ := SignEnv.createBlockSignature_signs rfl
      (create_freeBlock [decoy] [])
    have hcoin := hsigns.find
    rw [find_freeBlock] at hcoin
    cases hcoin
    have hfirst : ∀ out : TxOut, (freeEnv.keptOutputs [decoy] ++ [out]).findSome?
        freeEnv.outputSignature = some ⟨[], 2, [0]⟩ := by
      intro out
      rfl
    exact SignEnv.verifyBlockSignature_of_invalid (SignEnv.findSigner_of_first rfl
      hsigns.signedVtx hsigns.notBefore hsigns.isCoinBase (hfirst _)) rfl rfl
  · refine SignEnv.verifiedHash_congr rfl rfl rfl rfl ?_
    exact (@MerkleTree.root?_repeat_last _ FreeHash.node
      [FreeHash.tx (freeEnv.treeTx MERKLETREE_NO_COINBASE_OP_RETURN (freeCoinBase [freeSignature])),
        FreeHash.tx (freeEnv.treeTx MERKLETREE_NO_COINBASE_OP_RETURN (freeCoinBase []))]
      rfl (List.cons_ne_nil _ _) _).symm
  intro hcovered
  exact absurd hcovered.vtx.length_eq (by decide)

end Amberchain.Miner
