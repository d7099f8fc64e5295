import Amberchain.Base.MerkleTree
import Amberchain.Script.Scanners
import Amberchain.Script.Setters
import Amberchain.Transaction.Types

/-!
# Block signatures

`CreateBlockSignature` puts a signature of the header into an output of the coinbase,
and `VerifyBlockSignature` looks for it there.  What is signed is the header with
another root: that of the transactions without the unspendable outputs of the coinbase.
-/

namespace Amberchain.Miner

open Transaction (TxOut)

def BLOCKSIGHASH_NONE : BitVec 32 := 0
def BLOCKSIGHASH_HEADER : BitVec 32 := 1
def BLOCKSIGHASH_NO_SIGNATURE_AND_NONCE : BitVec 32 := 2
def BLOCKSIGHASH_INVALID : BitVec 32 := 0xfe
def MERKLETREE_FULL : BitVec 32 := 0
def MERKLETREE_NO_COINBASE_OP_RETURN : BitVec 32 := 1
def MERKLETREE_UNKNOWN : BitVec 32 := 0xff

structure TxIn (H : Type) where
  prevoutHash : H
  prevoutN : BitVec 32
  scriptSig : Bytes
  nSequence : BitVec 32

/-- `CTransaction` -/
structure Tx (H : Type) where
  nVersion : BitVec 32
  vin : List (TxIn H)
  vout : List TxOut
  nLockTime : BitVec 32

/-- `CBlockHeader` -/
structure Header (H : Type) where
  nVersion : BitVec 32
  hashPrevBlock : H
  hashMerkleRoot : H
  nTime : BitVec 32
  nBits : BitVec 32
  nNonce : BitVec 32

/-- `CBlock`; no signer stands for `vSigner[0] == 0`. -/
structure Block (H : Type) extends Header H where
  vtx : List (Tx H)
  vMerkleTree : List H
  nSigHashType : BitVec 32
  nMerkleTreeType : BitVec 32
  vSigner : Bytes

/-- The protocol, the height of the permission database, hashes, the keys of the wallet,
and how signatures are made and checked. -/
structure SignEnv (H K : Type) where
  params : ChainParams
  permissionsBlock : ℤ
  zero : H
  headerHash : Header H → H
  txHash : Tx H → H
  nodeHash : H → H → H
  getKey : Bytes → Option K
  sign : K → H → Bytes
  verify : Bytes → H → Bytes → Bool

/-- The loops of `mc_ParseOpDropOpReturnScript`, for some rounds. -/
def parseFrom (src : Bytes) (count : ℕ) : ℕ → Script.DropReturnScan → Option Script.DropReturnResult
  | 0, _ => none
  | rounds + 1, state =>
    match Script.dropReturnRound src count state with
    | .error result => some result
    | .ok next => parseFrom src count rounds next

/-- `mc_ParseOpDropOpReturnScript`.  A scan that ends is never twice at one byte with as
many elements found. -/
def parseOpDropOpReturnScript (src : Bytes) (count : ℕ) : Option Script.DropReturnResult :=
  parseFrom src count ((count + 1) * (src.length + 1)) Script.dropReturnStart

def isUnspendable (script : Bytes) : Bool :=
  match parseOpDropOpReturnScript script 2 with
  | some result => result.opReturn.isSome
  | none => false

/-- `CScript() << data` -/
def pushData (data : Bytes) : Bytes :=
  if data.length < OP_PUSHDATA1.toNat then BitVec.ofNat 8 data.length :: data
  else if data.length ≤ 0xff then OP_PUSHDATA1 :: (putLE data.length 1 ++ data)
  else if data.length ≤ 0xffff then OP_PUSHDATA2 :: (putLE data.length 2 ++ data)
  else OP_PUSHDATA4 :: (putLE data.length 4 ++ data)

def signatureScript (sig : Bytes) (hashType : BitVec 32) (key : Bytes) : Bytes :=
  match McScript.cleared.setBlockSignature sig hashType key with
  | .ok script => script.elements.foldl (fun script element => script ++ pushData element) [OP_RETURN]
  | .error _ => [OP_RETURN]

/-- `CPubKey::GetLen` -/
def pubKeyLength (header : Byte) : ℕ :=
  if header = 2 ∨ header = 3 then 33
  else if header = 4 ∨ header = 6 ∨ header = 7 then 65
  else 0

/-- `CPubKey::IsValid`, of a key from its bytes. -/
def isValidPubKey : Bytes → Bool
  | [] => false
  | header :: rest => pubKeyLength header ≠ 0 ∧ pubKeyLength header = rest.length + 1

def changeFirst {α : Type} (property : α → Bool) (change : α → α) : List α → List α
  | [] => []
  | head :: rest =>
    if property head then change head :: rest else head :: changeFirst property change rest

namespace SignEnv

variable {H K : Type} [DecidableEq H] (env : SignEnv H K)

def isCoinBase (tx : Tx H) : Bool :=
  match tx.vin with
  | [input] => input.prevoutHash = env.zero ∧ input.prevoutN = 0xffffffff
  | _ => false

def treeTx (treeType : BitVec 32) (tx : Tx H) : Tx H :=
  if treeType = MERKLETREE_NO_COINBASE_OP_RETURN ∧ env.isCoinBase tx then
    { tx with vout := tx.vout.filter fun out => !isUnspendable out.scriptPubKey }
  else tx

def leaves (treeType : BitVec 32) (vtx : List (Tx H)) : List H :=
  vtx.map fun tx => env.txHash (env.treeTx treeType tx)

/-- `BuildMerkleTree`, which remembers the tree. -/
def buildMerkleTree (block : Block H) : H × Block H :=
  let vMerkleTree := MerkleTree.tree env.nodeHash (env.leaves block.nMerkleTreeType block.vtx)
  (vMerkleTree.getLast?.getD env.zero, { block with vMerkleTree })

/-- `hashMerkleRoot=BuildMerkleTree()` -/
def withMerkleRoot (block : Block H) : Block H :=
  { (env.buildMerkleTree block).2 with hashMerkleRoot := (env.buildMerkleTree block).1 }

def withoutSignature (block : Block H) : Block H :=
  { env.withMerkleRoot { block with nMerkleTreeType := MERKLETREE_NO_COINBASE_OP_RETURN } with
    nNonce := 0 }

def verifiedHash (block : Block H) : H :=
  env.headerHash (env.withoutSignature block).toHeader

/-- `op_return_output`: the last unspendable output. -/
def opReturnOutput (vout : List TxOut) : Option ℕ :=
  vout.zipIdx.foldl (fun found out => if isUnspendable out.1.scriptPubKey then some out.2 else found)
    none

def keptOutputs (vout : List TxOut) : List TxOut :=
  (vout.zipIdx.filter fun out =>
    some out.2 ≠ opReturnOutput vout ∧ (out.1.value ≠ 0 ∨ env.permissionsBlock = 0)).map Prod.fst

def addSignature (hashType : BitVec 32) (hashToVerify : H) (block : Block H) : Bool × Block H :=
  match env.getKey block.vSigner with
  | none => (false, block)
  | some key =>
    let txOut : TxOut :=
      ⟨0, signatureScript (env.sign key hashToVerify) hashType block.vSigner⟩
    let block := { block with
      vtx := changeFirst env.isCoinBase (fun tx => { tx with vout := tx.vout ++ [txOut] }) block.vtx }
    if hashType = BLOCKSIGHASH_NO_SIGNATURE_AND_NONCE then (true, env.withMerkleRoot block)
    else (true, block)

def createBlockSignature (hashType : BitVec 32) (block : Block H) : Bool × Block H :=
  let block := { block with nMerkleTreeType := MERKLETREE_FULL, nSigHashType := BLOCKSIGHASH_NONE }
  if !env.params.isProtocolMultichain then (true, env.withMerkleRoot block)
  else if block.vSigner = [] then (false, block)
  else
    match block.vtx.find? env.isCoinBase with
    | none => (false, { block with nSigHashType := BLOCKSIGHASH_INVALID })
    | some coinBase =>
      if hashType = BLOCKSIGHASH_HEADER ∧ (opReturnOutput coinBase.vout).isSome then
        (false, { block with nSigHashType := BLOCKSIGHASH_INVALID })
      else
        let block := { block with
          vtx := changeFirst env.isCoinBase (fun tx => { tx with vout := env.keptOutputs tx.vout })
            block.vtx }
        if hashType = BLOCKSIGHASH_HEADER then
          let block := { block with
            nMerkleTreeType := MERKLETREE_NO_COINBASE_OP_RETURN
            nSigHashType := BLOCKSIGHASH_HEADER }
          env.addSignature hashType (env.headerHash block.toHeader) block
        else if hashType = BLOCKSIGHASH_NO_SIGNATURE_AND_NONCE then
          env.addSignature hashType (env.verifiedHash block)
            { env.withoutSignature block with nMerkleTreeType := MERKLETREE_FULL }
        else (false, { block with nSigHashType := BLOCKSIGHASH_INVALID })

def outputSignature (out : TxOut) : Option McScript.BlockSignature :=
  let script := McScript.setScript env.params out.scriptPubKey
  (List.range script.numElements).findSome? fun element =>
    match (script.setElement element).getBlockSignature 255 255 with
    | .ok signature => if signature.key = [] then none else some signature
    | .error _ => none

def findSigner (block : Block H) : Option McScript.BlockSignature :=
  if env.params.isProtocolMultichain then
    (block.vtx.filter env.isCoinBase).findSome? fun tx => tx.vout.findSome? env.outputSignature
  else none

def checkSignature (signature : McScript.BlockSignature) (hashToVerify : H) (block : Block H) :
    Bool × Block H :=
  if !isValidPubKey signature.key then (false, { block with nSigHashType := BLOCKSIGHASH_INVALID })
  else if !env.verify signature.key hashToVerify signature.sig then
    (false, { block with nSigHashType := BLOCKSIGHASH_INVALID })
  else (true, block)

def restoreMerkleTree (block : Block H) : Block H :=
  if block.vMerkleTree ≠ [] then block else (env.buildMerkleTree block).2

def verifyBlockSignature (force : Bool) (block : Block H) : Bool × Block H :=
  if !force ∧ block.nMerkleTreeType ≠ MERKLETREE_UNKNOWN then
    (block.nSigHashType ≠ BLOCKSIGHASH_INVALID, block)
  else
    let block := { block with nMerkleTreeType := MERKLETREE_FULL, nSigHashType := BLOCKSIGHASH_NONE }
    match env.findSigner block with
    | none =>
      let block := { block with vSigner := [] }
      if env.params.isProtocolMultichain ∧ block.hashPrevBlock ≠ env.zero then
        (false, { block with nSigHashType := BLOCKSIGHASH_INVALID })
      else (true, block)
    | some signature =>
      let block := { block with vSigner := signature.key }
      if signature.hashType = BLOCKSIGHASH_HEADER.toNat then
        let block := { block with
          nMerkleTreeType := MERKLETREE_NO_COINBASE_OP_RETURN
          nSigHashType := BLOCKSIGHASH_HEADER }
        env.checkSignature signature (env.headerHash block.toHeader) block
      else if signature.hashType = BLOCKSIGHASH_NO_SIGNATURE_AND_NONCE.toNat then
        env.checkSignature signature (env.verifiedHash block) (env.restoreMerkleTree block)
      else (false, { block with nSigHashType := BLOCKSIGHASH_INVALID })

end SignEnv

end Amberchain.Miner
