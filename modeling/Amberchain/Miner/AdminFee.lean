import Amberchain.Script.Text
import Amberchain.Validation.ConnectBlock
import Mathlib.Data.Rat.Floor
import Mathlib.Tactic.Positivity

/-!
# The fee of the administrator

A part of what a block earns goes to the administrator.  The part and the key of the
administrator are items of a stream, and every node reads them in its own wallet: the miner
when it splits the value of the coinbase, and `AcceptBlock` when it checks the split.
-/

namespace Amberchain.Miner

open ParamSet (cstr)
open Script (getScriptForDestination hexStr hexToStr scriptToString)
open Transaction (TxOut)
open Validation (BlockEnv toAmount)

/-- A number of the type `CAmount`. -/
def IsAmount (value : ℤ) : Prop :=
  -2 ^ 63 ≤ value ∧ value < 2 ^ 63

/-- `CAmount`, of an exact number: the part behind the point is cut off. -/
def truncate (value : ℚ) : ℤ :=
  if 0 ≤ value then ⌊value⌋ else ⌈value⌉

/-- What an item shows of its data: the bytes, or a reference to them when they are many. -/
inductive ItemData where
  | bytes (data : Bytes)
  | reference

/-- What transactions do to the stream `transactionparams`.  An item of which nothing is shown
has no entry. -/
inductive StreamEvent where
  | created
  | item (key : Bytes) (entry : Option ItemData)

/-- A node: the blocks it knows, what its active chain and its memory pool do to the stream,
and whether its wallet is subscribed to the stream.  Every node knows the first block. -/
structure Node {H : Type} (genesis : H) where
  mapBlockIndex : List H
  chainActive : List (List StreamEvent)
  memPool : List StreamEvent
  subscribed : Bool
  genesis_mem : genesis ∈ mapBlockIndex

/-- What makes the functions of a node throw. -/
inductive Thrown where
  | notSubscribed
  | notString
  | outOfRange
deriving DecidableEq

def KEY_ADMINPUBLICKEY : Bytes := cstr "admin-public-key"

def KEY_ADMINFEERATIO : Bytes := cstr "admin-fee-ratio"

def StreamEvent.entryOf (key : Bytes) : StreamEvent → Option (Option ItemData)
  | .created => none
  | .item itemKey entry => if itemKey = key then some entry else none

def StreamEvent.isCreated : StreamEvent → Bool
  | .created => true
  | .item _ _ => false

def ItemData.getStr : ItemData → Except Thrown Bytes
  | .bytes data => .ok (hexStr data)
  | .reference => .error .notString

namespace Node

variable {H : Type} {genesis : H} (node : Node genesis)

def events : List StreamEvent :=
  node.chainActive.flatten ++ node.memPool

def isStreamExisting : Bool :=
  node.events.any StreamEvent.isCreated

/-- `liststreamkeyitems`: the entries of the last ten items under a key. -/
def listStreamKeyItems (key : Bytes) : Except Thrown (List ItemData) :=
  if !node.subscribed then .error .notSubscribed
  else
    let rows := node.events.filterMap (StreamEvent.entryOf key)
    .ok ((rows.drop (rows.length - 10)).filterMap id)

def latestValue (key : Bytes) : Except Thrown (Option Bytes) :=
  if !node.isStreamExisting then .ok none
  else do
    let items ← node.listStreamKeyItems key
    match items.getLast? with
    | none => .ok none
    | some entry => do
      let hex ← entry.getStr
      .ok (some (hexToStr hex))

end Node

def isSpace (byte : Byte) : Bool :=
  byte = 0x20 || (0x09 ≤ byte && byte ≤ 0x0d)

def isDigit (byte : Byte) : Bool :=
  0x30 ≤ byte && byte ≤ 0x39

def digitsValue (digits : Bytes) : ℕ :=
  digits.foldl (fun value byte => 10 * value + (byte.toNat - 0x30)) 0

def readSign : Bytes → Bool × Bytes
  | 0x2d :: rest => (true, rest)
  | 0x2b :: rest => (false, rest)
  | text => (false, text)

def readExponent : Bytes → ℤ
  | mark :: rest =>
    if mark = 0x65 ∨ mark = 0x45 then
      let (negative, rest) := readSign rest
      let value : ℤ := digitsValue (rest.takeWhile isDigit)
      if negative then -value else value
    else 0
  | [] => 0

/-- The digits behind the point, and what is behind them. -/
def readFraction : Bytes → Bytes × Bytes
  | 0x2e :: rest => (rest.takeWhile isDigit, rest.dropWhile isDigit)
  | rest => ([], rest)

/-- `atof`, of a decimal number and exact. -/
def atof (text : Bytes) : ℚ :=
  let (negative, text) := readSign (text.dropWhile isSpace)
  let whole := text.takeWhile isDigit
  let (fraction, rest) := readFraction (text.dropWhile isDigit)
  let magnitude : ℚ :=
    digitsValue (whole ++ fraction) / 10 ^ fraction.length * 10 ^ readExponent rest
  if negative then -magnitude else magnitude

/-- The bytes of `CPubKey(data)`. -/
def pubKeyBytes (data : Bytes) : Bytes :=
  if isValidPubKey data then data else []

def keyScript (id : Hash160) : Bytes :=
  getScriptForDestination (.key id)

section Rule

variable {H : Type} {genesis : H} (hash160 : Bytes → Hash160)

def getAdminFeeRatio (node : Node genesis) : Except Thrown ℚ := do
  match ← node.latestValue KEY_ADMINFEERATIO with
  | none => .ok 0
  | some value => .ok (atof value)

def getAdminPublicKey (node : Node genesis) : Except Thrown Bytes := do
  match ← node.latestValue KEY_ADMINPUBLICKEY with
  | none => .ok (cstr "0")
  | some value => .ok value

def adminRule (node : Node genesis) : Except Thrown (Option (ℚ × Hash160)) := do
  let adminFeeRatio ← getAdminFeeRatio node
  let adminAddrStr ← getAdminPublicKey node
  if 0 < adminFeeRatio ∧ adminAddrStr ≠ cstr "0" then
    .ok (some (adminFeeRatio, hash160 (pubKeyBytes adminAddrStr)))
  else .ok none

end Rule

/-- How the loops of the check end before their time. -/
inductive Stop where
  | thrown (exception : Thrown)
  | refused

/-- `txFee` and `adminFee` -/
structure PaidFees where
  txFee : ℤ
  adminFee : ℤ
deriving DecidableEq

/-- `at(0) == OP_DUP && at(1) == OP_HASH160` -/
def startsLikeKey : Bytes → Except Stop Bool
  | [] => .error (.thrown .outOfRange)
  | [first] => if first = OP_DUP then .error (.thrown .outOfRange) else .ok false
  | first :: second :: _ => .ok (first = OP_DUP ∧ second = OP_HASH160)

def outputRound (adminScript : Bytes) (fees : PaidFees) (out : TxOut) : Except Stop PaidFees :=
  match startsLikeKey out.scriptPubKey with
  | .error stop => .error stop
  | .ok false => .ok fees
  | .ok true =>
    if scriptToString out.scriptPubKey = adminScript then .ok { fees with adminFee := out.value }
    else .ok { fees with txFee := out.value }

def expectedAdminFee (adminFeeRatio : ℚ) (fees : PaidFees) : ℤ :=
  truncate (toAmount (fees.txFee + fees.adminFee) * adminFeeRatio)

def coinbaseRound (adminFeeRatio : ℚ) (adminScript : Bytes) (fees : PaidFees) (vout : List TxOut) :
    Except Stop PaidFees :=
  match vout.foldlM (outputRound adminScript) fees with
  | .error stop => .error stop
  | .ok fees =>
    if 0 < fees.txFee ∧ 0 < fees.adminFee ∧
        expectedAdminFee adminFeeRatio fees ≠ fees.adminFee then .error .refused
    else .ok fees

/-- The body of `try`. -/
def checkAdminFee {H : Type} {genesis : H} (hash160 : Bytes → Hash160) (node : Node genesis)
    (coinbases : List (List TxOut)) : Except Stop Unit :=
  match adminRule hash160 node with
  | .error exception => .error (.thrown exception)
  | .ok none => .ok ()
  | .ok (some (adminFeeRatio, id)) =>
    (coinbases.foldlM (coinbaseRound adminFeeRatio (scriptToString (keyScript id))) ⟨0, 0⟩).map
      fun _ => ()

namespace SignEnv

variable {H K : Type} [DecidableEq H] {genesis : H} (env : SignEnv H K)

def coinbases (block : Block H) : List (List TxOut) :=
  (block.vtx.filter env.isCoinBase).map Tx.vout

/-- Whether `AcceptBlock` goes on behind the check: an exception is caught. -/
def acceptsAdminFee (hash160 : Bytes → Hash160) (node : Node genesis) (block : Block H) : Bool :=
  match checkAdminFee hash160 node (env.coinbases block) with
  | .error .refused => false
  | _ => true

def BLOCKSIGHASH_UNKNOWN : BitVec 32 := 0xff

abbrev PoolTx :=
  { tx : Tx H // env.isCoinBase tx = false }

/-- What a template is made of besides the view of the node: the key of the miner, what the
loop over the memory pool collects, and the fields of the header. -/
structure Template where
  key : Bytes
  txs : List env.PoolTx
  nFees : ℤ
  fees_amount : IsAmount nFees
  nHeight : ℕ
  nVersion : BitVec 32
  hashPrevBlock : H
  nTime : BitVec 32
  nBits : BitVec 32

/-- `CScript() << number` -/
def pushNumber (number : ℕ) : Bytes :=
  if number = 0 then [0x00]
  else if number ≤ 16 then [BitVec.ofNat 8 (0x50 + number)]
  else pushData (Interpreter.serialize number)

/-- The outputs of the coinbase of a template. -/
def splitValue (hash160 : Bytes → Hash160) (node : Node genesis) (scriptPubKeyIn : Bytes)
    (value : ℤ) : List TxOut :=
  match adminRule hash160 node with
  | .ok (some (adminFeeRatio, id)) =>
    let nAdminFee := truncate (value * adminFeeRatio)
    [⟨value - nAdminFee, scriptPubKeyIn⟩, ⟨nAdminFee, keyScript id⟩]
  | _ => [⟨value, scriptPubKeyIn⟩]

/-- `txNew` -/
def coinbaseOf (template : env.Template) (vout : List TxOut) : Tx H where
  nVersion := 1
  vin := [⟨env.zero, 0xffffffff, pushNumber template.nHeight ++ [0x00], 0xffffffff⟩]
  vout := vout
  nLockTime := 0

/-- `CreateNewBlock`, for the script that its callers make of the key. -/
def createNewBlock (rewards : BlockEnv) (hash160 : Bytes → Hash160) (node : Node genesis)
    (template : env.Template) : Block H where
  nVersion := template.nVersion
  hashPrevBlock := template.hashPrevBlock
  hashMerkleRoot := env.zero
  nTime := template.nTime
  nBits := template.nBits
  nNonce := 0
  vtx := env.coinbaseOf template
      (splitValue hash160 node (keyScript (hash160 template.key))
        (Validation.getBlockValue rewards template.nHeight template.nFees)) ::
    template.txs.map Subtype.val
  vMerkleTree := []
  nSigHashType := BLOCKSIGHASH_UNKNOWN
  nMerkleTreeType := MERKLETREE_UNKNOWN
  vSigner := template.key

/-- `CreateNewBlock` followed by `CreateBlockSignature`: whether it is signed, and the block. -/
def buildBlock (rewards : BlockEnv) (hash160 : Bytes → Hash160) (node : Node genesis)
    (template : env.Template) : Bool × Block H :=
  env.createBlockSignature BLOCKSIGHASH_NO_SIGNATURE_AND_NONCE
    (env.createNewBlock rewards hash160 node template)

end SignEnv

end Amberchain.Miner

/-!
# What two nodes demand

A node accepts the coinbases of a block when what they pay agrees with the rule that the node
reads.  Two nodes take the same decision on every block just when their rules demand the same
shares for the same key.
-/

namespace Amberchain.Miner

open Script (scriptToString scriptToString_key_inj scriptToString_short_ne)
open Transaction (TxOut)
open Validation (toAmount)

def share (ratio : ℚ) (total : ℤ) : Option ℤ :=
  let fee := truncate (total * ratio)
  if 0 < fee ∧ fee < total then some fee else none

variable {ratio : ℚ}

theorem share_eq_some {total fee : ℤ} :
    share ratio total = some fee ↔ truncate (total * ratio) = fee ∧ 0 < fee ∧ fee < total := by
  unfold share
  dsimp only
  split_ifs with hshare
  · constructor
    · intro heq
      cases heq
      exact ⟨rfl, hshare⟩
    rintro ⟨rfl, -⟩
    rfl
  constructor
  · intro heq
    cases heq
  rintro ⟨rfl, hfee⟩
  exact absurd hfee hshare

theorem truncate_nonneg {value : ℚ} (hvalue : 0 ≤ value) : 0 ≤ truncate value := by
  rw [truncate, if_pos hvalue]
  exact Int.floor_nonneg.mpr hvalue

theorem truncate_nonpos {value : ℚ} (hvalue : value ≤ 0) : truncate value ≤ 0 := by
  rw [truncate]
  split_ifs with hnonneg
  · rw [le_antisymm hvalue hnonneg, Int.floor_zero]
  exact Int.ceil_le.mpr (by exact_mod_cast hvalue)

theorem toAmount_of_isAmount {value : ℤ} (hvalue : IsAmount value) : toAmount value = value := by
  unfold IsAmount at hvalue
  exact Int.bmod_eq_of_le (by omega) (by omega)

theorem toAmount_neg {value : ℤ} (hlow : 2 ^ 63 ≤ value) (hhigh : value < 2 ^ 64) :
    toAmount value < 0 := by
  rw [toAmount, Int.bmod_def, Int.emod_eq_of_lt (by omega) (by exact_mod_cast hhigh)]
  split_ifs <;> omega

/-- A coinbase with two positive parts is refused when they are not the share of their sum and
the rest. -/
theorem expectedAdminFee_eq_iff {ratio : ℚ} {fees : PaidFees} (hratio : 0 < ratio)
    (htx : IsAmount fees.txFee) (hadmin : IsAmount fees.adminFee) (hpaid : 0 < fees.txFee)
    (hpart : 0 < fees.adminFee) : expectedAdminFee ratio fees = fees.adminFee ↔
      fees.txFee + fees.adminFee < 2 ^ 63 ∧
        share ratio (fees.txFee + fees.adminFee) = some fees.adminFee := by
  unfold IsAmount at htx hadmin
  rw [share_eq_some]
  by_cases hfits : fees.txFee + fees.adminFee < 2 ^ 63
  · have hsum : IsAmount (fees.txFee + fees.adminFee) := ⟨by omega, hfits⟩
    rw [expectedAdminFee, toAmount_of_isAmount hsum]
    constructor
    · intro heq
      exact ⟨hfits, heq, hpart, by omega⟩
    intro heq
    exact heq.2.1
  constructor
  · intro heq
    have hneg := toAmount_neg (Int.not_lt.mp hfits) (by omega)
    have hproduct : (toAmount (fees.txFee + fees.adminFee) : ℚ) * ratio ≤ 0 :=
      mul_nonpos_of_nonpos_of_nonneg (by exact_mod_cast hneg.le) hratio.le
    have hle := truncate_nonpos hproduct
    rw [expectedAdminFee] at heq
    omega
  intro heq
  exact absurd heq.1 hfits

section Rules

variable {H : Type} {genesis : H} (hash160 : Bytes → Hash160)

def ruleOf (node : Node genesis) : Option (ℚ × Hash160) :=
  match adminRule hash160 node with
  | .ok rule => rule
  | .error _ => none

variable {hash160}

/-- A ratio in force is positive. -/
theorem ruleOf_pos {node : Node genesis} {id : Hash160}
    (hrule : ruleOf hash160 node = some (ratio, id)) : 0 < ratio := by
  unfold ruleOf adminRule at hrule
  cases hratio : getAdminFeeRatio node with
  | error thrown =>
    rw [hratio] at hrule
    cases hrule
  | ok value =>
    cases hkey : getAdminPublicKey node with
    | error thrown =>
      rw [hratio, hkey] at hrule
      cases hrule
    | ok key =>
      rw [hratio, hkey] at hrule
      change (match (if _ then .ok _ else .ok none : Except Thrown (Option (ℚ × Hash160))) with
        | .ok rule => rule
        | .error _ => none) = _ at hrule
      split_ifs at hrule with hboth
      cases hrule
      exact hboth.1

end Rules

def SameDemand : Option (ℚ × Hash160) → Option (ℚ × Hash160) → Prop
  | none, none => True
  | some (ratio, id), some (ratio', id') =>
    id = id' ∧ ∀ total < 2 ^ 63, share ratio total = share ratio' total
  | _, _ => False

def acceptsUnder (rule : Option (ℚ × Hash160)) (coinbases : List (List TxOut)) : Bool :=
  match rule with
  | none => true
  | some (ratio, id) =>
    match coinbases.foldlM (coinbaseRound ratio (scriptToString (keyScript id))) ⟨0, 0⟩ with
    | .error .refused => false
    | _ => true

namespace SignEnv

variable {H K : Type} [DecidableEq H] {genesis : H} {env : SignEnv H K}
variable {hash160 : Bytes → Hash160}

theorem acceptsAdminFee_eq (node : Node genesis) (block : Block H) :
    env.acceptsAdminFee hash160 node block =
      acceptsUnder (ruleOf hash160 node) (env.coinbases block) := by
  unfold acceptsAdminFee checkAdminFee ruleOf acceptsUnder
  cases adminRule hash160 node with
  | error thrown => rfl
  | ok rule =>
    cases rule with
    | none => rfl
    | some rule =>
      obtain ⟨ratio, id⟩ := rule
      dsimp only
      cases (env.coinbases block).foldlM
          (coinbaseRound ratio (scriptToString (keyScript id))) ⟨0, 0⟩ with
      | error stop => cases stop <;> rfl
      | ok fees => rfl

end SignEnv

variable {script : Bytes}

theorem outputRound_isAmount {fees fees' : PaidFees} {out : TxOut}
    (htx : IsAmount fees.txFee) (hadmin : IsAmount fees.adminFee) (hout : IsAmount out.value)
    (hround : outputRound script fees out = .ok fees') :
    IsAmount fees'.txFee ∧ IsAmount fees'.adminFee := by
  unfold outputRound at hround
  split at hround
  · cases hround
  · cases hround
    exact ⟨htx, hadmin⟩
  split_ifs at hround
  · cases hround
    exact ⟨htx, hout⟩
  cases hround
  exact ⟨hout, hadmin⟩

theorem outputRounds_isAmount {vout : List TxOut} {fees fees' : PaidFees}
    (htx : IsAmount fees.txFee) (hadmin : IsAmount fees.adminFee)
    (hvout : ∀ out ∈ vout, IsAmount out.value)
    (hrounds : vout.foldlM (outputRound script) fees = .ok fees') :
    IsAmount fees'.txFee ∧ IsAmount fees'.adminFee := by
  induction vout generalizing fees with
  | nil =>
    cases hrounds
    exact ⟨htx, hadmin⟩
  | cons out vout ih =>
    rw [List.foldlM_cons] at hrounds
    cases hround : outputRound script fees out with
    | error stop =>
      rw [hround] at hrounds
      cases hrounds
    | ok next =>
      rw [hround] at hrounds
      obtain ⟨htx', hadmin'⟩ :=
        outputRound_isAmount htx hadmin (hvout out (.head _)) hround
      exact ih htx' hadmin' (fun other hother => hvout other (.tail _ hother))
        hrounds

theorem refuses_congr {ratio ratio' : ℚ} {fees : PaidFees} (hratio : 0 < ratio)
    (hratio' : 0 < ratio') (hshare : ∀ total < 2 ^ 63, share ratio total = share ratio' total)
    (htx : IsAmount fees.txFee) (hadmin : IsAmount fees.adminFee) :
    (0 < fees.txFee ∧ 0 < fees.adminFee ∧ expectedAdminFee ratio fees ≠ fees.adminFee) ↔
      (0 < fees.txFee ∧ 0 < fees.adminFee ∧ expectedAdminFee ratio' fees ≠ fees.adminFee) := by
  refine and_congr_right fun hpaid => and_congr_right fun hpart => not_congr ?_
  rw [expectedAdminFee_eq_iff hratio htx hadmin hpaid hpart,
    expectedAdminFee_eq_iff hratio' htx hadmin hpaid hpart]
  exact and_congr_right fun hfits => by rw [hshare _ hfits]

theorem coinbaseRound_of_ok {fees paid : PaidFees}
    {vout : List TxOut} (hrounds : vout.foldlM (outputRound script) fees = .ok paid) :
    coinbaseRound ratio script fees vout =
      if 0 < paid.txFee ∧ 0 < paid.adminFee ∧ expectedAdminFee ratio paid ≠ paid.adminFee then
        .error .refused
      else .ok paid := by
  unfold coinbaseRound
  rw [hrounds]

/-- One coinbase is treated alike, and what is paid stays a pair of amounts. -/
theorem coinbaseRound_congr {ratio ratio' : ℚ} {script : Bytes} {fees : PaidFees}
    {vout : List TxOut} (hratio : 0 < ratio) (hratio' : 0 < ratio')
    (hshare : ∀ total < 2 ^ 63, share ratio total = share ratio' total)
    (htx : IsAmount fees.txFee) (hadmin : IsAmount fees.adminFee)
    (hvout : ∀ out ∈ vout, IsAmount out.value) :
    coinbaseRound ratio script fees vout = coinbaseRound ratio' script fees vout ∧
      ∀ fees', coinbaseRound ratio script fees vout = .ok fees' →
        IsAmount fees'.txFee ∧ IsAmount fees'.adminFee := by
  cases hrounds : vout.foldlM (outputRound script) fees with
  | error stop =>
    unfold coinbaseRound
    rw [hrounds]
    exact ⟨rfl, fun fees' hok => by cases hok⟩
  | ok paid =>
    obtain ⟨htx', hadmin'⟩ := outputRounds_isAmount htx hadmin hvout hrounds
    rw [coinbaseRound_of_ok hrounds, coinbaseRound_of_ok hrounds]
    constructor
    · exact if_congr (refuses_congr hratio hratio' hshare htx' hadmin') rfl rfl
    intro fees' hok
    split_ifs at hok
    cases hok
    exact ⟨htx', hadmin'⟩

theorem coinbaseRounds_congr {ratio ratio' : ℚ} (hratio : 0 < ratio)
    (hratio' : 0 < ratio') (hshare : ∀ total < 2 ^ 63, share ratio total = share ratio' total)
    {coinbases : List (List TxOut)} {fees : PaidFees} (htx : IsAmount fees.txFee)
    (hadmin : IsAmount fees.adminFee)
    (hvouts : ∀ vout ∈ coinbases, ∀ out ∈ vout, IsAmount out.value) :
    coinbases.foldlM (coinbaseRound ratio script) fees =
      coinbases.foldlM (coinbaseRound ratio' script) fees := by
  induction coinbases generalizing fees with
  | nil => rfl
  | cons vout coinbases ih =>
    obtain ⟨hsame, hamounts⟩ := @coinbaseRound_congr ratio ratio' script fees vout hratio hratio'
      hshare htx hadmin (hvouts vout (.head _))
    rw [List.foldlM_cons, List.foldlM_cons, ← hsame]
    cases hround : coinbaseRound ratio script fees vout with
    | error stop => rfl
    | ok next =>
      obtain ⟨htx', hadmin'⟩ := hamounts next hround
      exact ih htx' hadmin' fun other hother => hvouts other (.tail _ hother)

theorem acceptsUnder_congr {rule rule' : Option (ℚ × Hash160)}
    (hpos : ∀ ratio id, rule = some (ratio, id) → 0 < ratio)
    (hpos' : ∀ ratio id, rule' = some (ratio, id) → 0 < ratio) (hsame : SameDemand rule rule')
    {coinbases : List (List TxOut)}
    (hvouts : ∀ vout ∈ coinbases, ∀ out ∈ vout, IsAmount out.value) :
    acceptsUnder rule coinbases = acceptsUnder rule' coinbases := by
  match rule, rule', hsame with
  | none, none, _ => rfl
  | some (ratio, id), some (ratio', id'), hsame =>
    obtain ⟨rfl, hshare⟩ := hsame
    have hzero : IsAmount 0 := ⟨by decide, by decide⟩
    unfold acceptsUnder
    dsimp only
    rw [coinbaseRounds_congr (hpos ratio id rfl) (hpos' ratio' id rfl) hshare hzero hzero hvouts]

theorem keyScript_text_eq_iff {id other : Hash160} :
    scriptToString (keyScript other) = scriptToString (keyScript id) ↔ other = id :=
  ⟨scriptToString_key_inj, fun heq => by rw [heq]⟩

theorem outputRounds_cons {fees fees' : PaidFees} {out : TxOut}
    {vout : List TxOut} (hround : outputRound script fees out = .ok fees') :
    (out :: vout).foldlM (outputRound script) fees = vout.foldlM (outputRound script) fees' := by
  rw [List.foldlM_cons, hround]
  rfl

theorem outputRound_key (id other : Hash160) (fees : PaidFees) (value : ℤ) :
    outputRound (scriptToString (keyScript id)) fees ⟨value, keyScript other⟩ =
      .ok (if other = id then { fees with adminFee := value }
        else { fees with txFee := value }) := by
  have hlike : startsLikeKey (keyScript other) = .ok true := rfl
  unfold outputRound
  rw [hlike]
  by_cases hid : other = id
  · rw [if_pos (keyScript_text_eq_iff.mpr hid), if_pos hid]
  rw [if_neg (fun heq => hid (keyScript_text_eq_iff.mp heq)), if_neg hid]

/-- An output to nobody that looks like one to a key. -/
def shortOut (value : ℤ) : TxOut :=
  ⟨value, [OP_DUP, OP_HASH160]⟩

theorem outputRound_short (id : Hash160) (fees : PaidFees) (value : ℤ) :
    outputRound (scriptToString (keyScript id)) fees (shortOut value) =
      .ok { fees with txFee := value } := by
  exact if_neg (scriptToString_short_ne id)

/-- A coinbase that pays somebody and a key. -/
def probe (paid part : ℤ) (id : Hash160) : List TxOut :=
  [shortOut paid, ⟨part, keyScript id⟩]

theorem coinbaseRound_probe (ratio : ℚ) (id other : Hash160) (paid part : ℤ) :
    coinbaseRound ratio (scriptToString (keyScript id)) ⟨0, 0⟩ (probe paid part other) =
      let fees : PaidFees := if other = id then ⟨paid, part⟩ else ⟨part, 0⟩
      if 0 < fees.txFee ∧ 0 < fees.adminFee ∧ expectedAdminFee ratio fees ≠ fees.adminFee then
        .error .refused
      else .ok fees := by
  have hrounds : (probe paid part other).foldlM (outputRound (scriptToString (keyScript id)))
      (⟨0, 0⟩ : PaidFees) = .ok (if other = id then ⟨paid, part⟩ else ⟨part, 0⟩) := by
    rw [probe, outputRounds_cons (outputRound_short id _ paid),
      outputRounds_cons (outputRound_key id other _ part)]
    rfl
  rw [coinbaseRound_of_ok hrounds]

theorem acceptsUnder_probe_other {id other : Hash160} (hne : other ≠ id) (ratio : ℚ)
    (paid part : ℤ) : acceptsUnder (some (ratio, id)) [probe paid part other] = true := by
  unfold acceptsUnder
  dsimp only
  rw [List.foldlM_cons, coinbaseRound_probe, if_neg hne]
  dsimp only
  rw [if_neg fun hboth => absurd hboth.2.1 (by decide)]
  rfl

theorem acceptsUnder_probe {paid part : ℤ} (id : Hash160) (hratio : 0 < ratio)
    (hpaid : 0 < paid) (hpart : 0 < part) (hfits : paid + part < 2 ^ 63) :
    acceptsUnder (some (ratio, id)) [probe paid part id] = true ↔
      share ratio (paid + part) = some part := by
  have hexpected := @expectedAdminFee_eq_iff ratio ⟨paid, part⟩ hratio
    ⟨by dsimp only; omega, by dsimp only; omega⟩ ⟨by dsimp only; omega, by dsimp only; omega⟩
    hpaid hpart
  unfold acceptsUnder
  dsimp only
  rw [List.foldlM_cons, coinbaseRound_probe, if_pos rfl]
  by_cases hshare : share ratio (paid + part) = some part
  · rw [if_neg fun hrefused => hrefused.2.2 (hexpected.mpr ⟨hfits, hshare⟩)]
    exact iff_of_true rfl hshare
  rw [if_pos ⟨hpaid, hpart, fun heq => hshare (hexpected.mp heq).2⟩]
  exact iff_of_false (by exact Bool.false_ne_true) hshare

theorem exists_refused (hratio : 0 < ratio) (id : Hash160) :
    ∃ paid part : ℤ, IsAmount paid ∧ IsAmount part ∧
      acceptsUnder (some (ratio, id)) [probe paid part id] = false := by
  by_cases hone : share ratio 3 = some 1
  · refine ⟨1, 2, ⟨by decide, by decide⟩, ⟨by decide, by decide⟩, ?_⟩
    rw [Bool.eq_false_iff, Ne, acceptsUnder_probe id hratio (by decide) (by decide) (by decide)]
    intro htwo
    cases hone.symm.trans htwo
  refine ⟨2, 1, ⟨by decide, by decide⟩, ⟨by decide, by decide⟩, ?_⟩
  rw [Bool.eq_false_iff, Ne, acceptsUnder_probe id hratio (by decide) (by decide) (by decide)]
  exact hone

end Amberchain.Miner
