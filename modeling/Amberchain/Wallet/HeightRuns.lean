import Amberchain.Base.Folding
import Amberchain.Wallet.Heights

/-!
# Runs of the chain import

Transactions are received, blocks are connected and disconnected, and every transaction
that was added is asked for.  `GetTx` answers by the chain as long as no block is
connected at a height that a definition of an abandoned block still carries on disk.
-/

namespace Amberchain.Wallet

/-- A call that `mc_WalletTxs::AddTx` makes. -/
inductive StoreCall where
  | addTx (tx : TxArgs) (entities : List TxEntity)
  | addSubKeyDef (hash : Hash256) (subKeySize : ℕ) (flags : BitVec 32) (timeReceived : ℕ)
  | incrementSubKey (parentEntity entity : TxEntity) (subKeyHash : Hash160) (txHash : Hash256)
      (block : ℤ) (flags : BitVec 32) (newTx : Bool)
  | addEntity (entity : TxEntity) (flags : BitVec 32)

namespace StoreCall

def run (db : TxDB) : StoreCall → TxDB.Outcome
  | addTx tx entities => .ok (db.addTx 0 tx entities)
  | addSubKeyDef hash subKeySize flags timeReceived =>
    .ok (db.addSubKeyDef 0 hash subKeySize flags timeReceived)
  | incrementSubKey parentEntity entity subKeyHash txHash block flags newTx =>
    db.incrementSubKey 0 parentEntity entity subKeyHash txHash block flags newTx
  | addEntity entity flags => .ok (db.addEntity 0 entity flags).store

/-- The transaction that is added. -/
def hash : StoreCall → Option Hash256
  | addTx tx _ => some tx.hash
  | _ => none

def Places (chain : List (List Hash256)) (block : ℤ) : StoreCall → Prop
  | addTx tx _ => tx.block = block ∧ ∀ confirmed ∈ chain, tx.hash ∉ confirmed
  | _ => True

end StoreCall

namespace TxDB

/-- `MC_TFL_INVALID` is set for all the transactions. -/
def markInvalid (db : TxDB) (hashes : List Hash256) : TxDB :=
  hashes.foldl (fun db hash => (db.saveTxFlag hash flagInvalid true).store) db

/-- The wallet's part in `ConnectTip`. -/
def connectBlock (db : TxDB) (calls : List StoreCall) : Outcome := do
  let added ← calls.foldlM StoreCall.run (db.beforeCommit 0)
  added.commit 0

/-- `mc_WalletTxs::RollBack` in the chain import, with the sub-keys that it counts down and
the coinbases that it finds in the wallet. -/
def rollBackWallet (db : TxDB) (block : ℤ) (subKeys : List (TxEntity × TxEntity))
    (coinbases : List Hash256) : Outcome :=
  if (db.imports 0).block ≤ block then
    if block = (db.imports 0).block then .ok db else .error (.internalError, db)
  else
    match subKeys.foldlM (fun db entities => db.decrementSubKey 0 entities.1 entities.2) db with
    | .error err => .error err
    | .ok decremented =>
      match decremented.rollBack 0 block with
      | .error (err, db) => .error (err, db.markInvalid coinbases)
      | .ok db => .ok (db.markInvalid coinbases)

end TxDB

/-- The store, the transactions added in each block of the chain, and all that were ever
added. -/
structure Ledger where
  db : TxDB
  chain : List (List Hash256)
  added : List Hash256

namespace Ledger

def initial : Ledger :=
  ⟨TxDB.initial, [], []⟩

variable (ledger : Ledger)

def call (storeCall : StoreCall) : Ledger where
  db := (storeCall.run ledger.db).store
  chain := ledger.chain
  added := storeCall.hash.toList ++ ledger.added

def connect (calls : List StoreCall) : Option Ledger :=
  match ledger.db.connectBlock calls with
  | .error _ => none
  | .ok db =>
    let block := calls.filterMap StoreCall.hash
    some ⟨db, ledger.chain ++ [block], block ++ ledger.added⟩

def disconnect (block : ℤ) (subKeys : List (TxEntity × TxEntity)) (coinbases : List Hash256) :
    Ledger :=
  match ledger.db.rollBackWallet block subKeys coinbases with
  | .error (_, db) => { ledger with db := db }
  | .ok db => { ledger with db := db, chain := ledger.chain.take (block + 1).toNat }

/-- The runs in which every block that is connected meets a condition. -/
inductive Reached (condition : Ledger → List StoreCall → Prop) : Ledger → Prop
  | initial : Reached condition Ledger.initial
  | called {ledger : Ledger} (hreached : Reached condition ledger) (storeCall : StoreCall)
      (hplaces : storeCall.Places ledger.chain (-1)) :
      Reached condition (ledger.call storeCall)
  | invalidated {ledger : Ledger} (hreached : Reached condition ledger) (hashes : List Hash256) :
      Reached condition { ledger with db := ledger.db.markInvalid hashes }
  | connected {ledger after : Ledger} (hreached : Reached condition ledger)
      (calls : List StoreCall)
      (hplaces : ∀ storeCall ∈ calls, storeCall.Places ledger.chain ledger.chain.length)
      (hcondition : condition ledger calls) (hconnect : ledger.connect calls = some after) :
      Reached condition after
  | disconnected {ledger : Ledger} (hreached : Reached condition ledger) (block : ℤ)
      (hblock : -1 ≤ block) (subKeys : List (TxEntity × TxEntity)) (coinbases : List Hash256) :
      Reached condition (ledger.disconnect block subKeys coinbases)

theorem Reached.mono {condition weaker : Ledger → List StoreCall → Prop} {ledger : Ledger}
    (hreached : Reached condition ledger)
    (hweaker : ∀ ledger calls, condition ledger calls → weaker ledger calls) :
    Reached weaker ledger := by
  induction hreached with
  | initial => exact .initial
  | called _ storeCall hplaces ih => exact .called ih storeCall hplaces
  | invalidated _ hashes ih => exact .invalidated ih hashes
  | connected _ calls hplaces hcondition hconnect ih =>
    exact .connected ih calls hplaces (hweaker _ _ hcondition) hconnect
  | disconnected _ block hblock subKeys coinbases ih =>
    exact .disconnected ih block hblock subKeys coinbases

/-- `GetTx` reports every transaction that was added: at its height when it is in the chain,
and else as unconfirmed or invalid. -/
def Reports : Prop :=
  ∀ hash ∈ ledger.added, ∃ txDef, ledger.db.getTx hash = some txDef
    ∧ (∀ (height : ℕ) block, ledger.chain[height]? = some block → hash ∈ block →
      txDef.block = height)
    ∧ ((∀ block ∈ ledger.chain, hash ∉ block) → txDef.block = -1 ∨ txDef.invalid = true)

/-- Each valid definition on disk with the height of the next block is replaced: it is in the
pool of updates or belongs to the block. -/
def Rewrites (calls : List StoreCall) : Prop :=
  ∀ hash txDef, ledger.db.defs.read hash = some txDef → txDef.block = ledger.db.block + 1 →
    txDef.invalid = false →
      ledger.db.rawUpdatePool hash ≠ none ∨ hash ∈ calls.filterMap StoreCall.hash

/-- The invariant of the runs that rewrite. -/
def Follows : Prop :=
  ledger.db.defPart.Follows ledger.chain ledger.added DefPart.unconfirmed

end Ledger

namespace DefPart

variable {part : DefPart} {chain : List (List Hash256)} {added : List Hash256}
  {expected : Hash256 → ℤ}

theorem Follows.of_added (hfollows : part.Follows chain added expected) {more : List Hash256}
    (hmore : ∀ hash, hash ∈ added ↔ hash ∈ more) : part.Follows chain more expected :=
  { hfollows with
    known := fun hash hhash => hfollows.known hash ((hmore hash).mpr hhash)
    stored_added := fun hash txDef htxDef hconfirmed =>
      (hmore hash).mp (hfollows.stored_added hash txDef htxDef hconfirmed)
    expected_added := fun hash hexpected =>
      (hmore hash).mp (hfollows.expected_added hash hexpected) }

/-- What a call makes of the definitions: one added transaction, or nothing that is on disk
or in the pool of updates. -/
structure Called (part after : DefPart) (hash : Option Hash256) : Prop where
  block : after.block = part.block
  defs : after.defs = part.defs
  update : ∀ other ∉ hash, after.update other = part.update other

end DefPart

theorem follows_run {db : TxDB} {chain : List (List Hash256)} {added : List Hash256}
    {expected : Hash256 → ℤ} {block : ℤ} {storeCall : StoreCall}
    (hfollows : db.defPart.Follows chain added expected) (hplaces : storeCall.Places chain block) :
    DefPart.Called db.defPart (storeCall.run db).store.defPart storeCall.hash
      ∧ (storeCall.run db).store.defPart.Follows chain (storeCall.hash.toList ++ added)
        fun hash => if hash ∈ storeCall.hash then block else expected hash := by
  have hkept : ∀ {after : DefPart}, after = db.defPart →
      DefPart.Called db.defPart after none ∧ after.Follows chain added expected := by
    rintro after rfl
    exact ⟨⟨rfl, rfl, fun _ _ => rfl⟩, hfollows⟩
  cases storeCall with
  | addTx tx entities =>
    have hpart : (StoreCall.run db (.addTx tx entities)).store.defPart = db.defPart.addTx tx :=
      TxDB.defPart_addTx hfollows.chainImport tx entities
    have hadded := DefPart.follows_addTx hfollows hplaces.2
    have hexpected : Function.update expected tx.hash tx.block =
        fun hash => if hash ∈ some tx.hash then block else expected hash := by
      funext hash
      by_cases hhash : hash = tx.hash
      · subst hhash
        simp [hplaces.1]
      · simp [Function.update_of_ne hhash, Ne.symm hhash]
    rw [hexpected] at hadded
    rw [hpart]
    refine ⟨?_, hadded⟩
    rcases DefPart.addTx_cases hfollows tx with ⟨txDef, -, -, -, hset⟩ | ⟨txDef, -, -, -, hset⟩
    · rw [hset]
      exact ⟨rfl, rfl, fun _ _ => rfl⟩
    rw [hset]
    refine ⟨rfl, rfl, fun other hother => DefPart.update_setUpdate_of_ne _ _ ?_⟩
    rintro rfl
    exact hother rfl
  | addSubKeyDef hash subKeySize flags timeReceived =>
    have hpart : (StoreCall.run db (.addSubKeyDef hash subKeySize flags timeReceived)).store.defPart =
        db.defPart.addSubKeyDef hash
          ⟨hash, subKeySize, subKeySize, -1, -1, 0, 0, 0, timeReceived, flags⟩ :=
      TxDB.defPart_addSubKeyDef hash subKeySize flags timeReceived
    rw [hpart]
    refine ⟨?_, DefPart.follows_addSubKeyDef hfollows rfl⟩
    unfold DefPart.addSubKeyDef
    split <;> exact ⟨rfl, rfl, fun _ _ => rfl⟩
  | incrementSubKey parentEntity entity subKeyHash txHash blockOf flags newTx =>
    exact hkept (TxDB.defPart_incrementSubKey 0 parentEntity entity subKeyHash txHash blockOf
      flags newTx)
  | addEntity entity flags =>
    have hcommit : { db.defPart with defs := db.defs.commit } = db.defPart := by
      have hdefs : db.defs.commit = db.defs := Batched.commit_of_settled hfollows.settled
      rw [hdefs]
      rfl
    rcases @TxDB.defPart_addEntity db 0 entity flags with hsame | hsame
    · exact hkept hsame
    exact hkept (hsame.trans hcommit)

/-- The calls of one block: the definitions of its transactions wait with its height. -/
theorem follows_calls {chain : List (List Hash256)} {block : ℤ} :
    ∀ {calls : List StoreCall} {db after : TxDB} {added : List Hash256} {expected : Hash256 → ℤ},
      db.defPart.Follows chain added expected →
      (∀ storeCall ∈ calls, storeCall.Places chain block) →
      calls.foldlM StoreCall.run db = .ok after →
      (after.defPart.block = db.defPart.block ∧ after.defPart.defs = db.defPart.defs
        ∧ ∀ hash ∉ calls.filterMap StoreCall.hash,
          after.defPart.update hash = db.defPart.update hash)
      ∧ ∃ more, (∀ hash, hash ∈ more ↔ hash ∈ calls.filterMap StoreCall.hash ++ added)
        ∧ after.defPart.Follows chain more
          fun hash => if hash ∈ calls.filterMap StoreCall.hash then block else expected hash
  | [], db, after, added, expected, hfollows, _, hrun => by
    cases hrun
    exact ⟨⟨rfl, rfl, fun _ _ => rfl⟩, added, fun hash => Iff.rfl, hfollows⟩
  | storeCall :: calls, db, after, added, expected, hfollows, hplaces, hrun => by
    obtain ⟨next, hnext, hrest⟩ := Folding.foldlM_cons_eq_ok.mp hrun
    obtain ⟨hcalled, hfollowsNext⟩ := follows_run hfollows (hplaces storeCall List.mem_cons_self)
    rw [hnext] at hcalled hfollowsNext
    obtain ⟨⟨hblock, hdefs, hupdate⟩, more, hmore, hfollowsRest⟩ := follows_calls hfollowsNext
      (fun other hother => hplaces other (List.mem_cons_of_mem _ hother)) hrest
    have hmem : ∀ hash, hash ∈ (storeCall :: calls).filterMap StoreCall.hash ↔
        hash ∈ storeCall.hash ∨ hash ∈ calls.filterMap StoreCall.hash := by
      intro hash
      simp only [List.mem_filterMap, List.mem_cons, exists_eq_or_imp]
      rfl
    refine ⟨⟨hblock.trans hcalled.block, hdefs.trans hcalled.defs, ?_⟩, more, ?_, ?_⟩
    · intro hash hhash
      rw [hmem, not_or] at hhash
      exact (hupdate hash hhash.2).trans (hcalled.update hash hhash.1)
    · intro hash
      rw [hmore, List.mem_append, List.mem_append, List.mem_append, hmem, Option.mem_toList]
      tauto
    have hexpected : (fun hash => if hash ∈ (storeCall :: calls).filterMap StoreCall.hash then block
        else expected hash) = fun hash => if hash ∈ calls.filterMap StoreCall.hash then block
          else if hash ∈ storeCall.hash then block else expected hash := by
      funext hash
      simp only [hmem]
      by_cases hfirst : hash ∈ storeCall.hash <;>
        by_cases hlater : hash ∈ calls.filterMap StoreCall.hash <;> simp [hfirst, hlater]
    rw [hexpected]
    exact hfollowsRest

theorem follows_markInvalid {chain : List (List Hash256)} {added : List Hash256}
    {expected : Hash256 → ℤ} :
    ∀ {hashes : List Hash256} {db : TxDB}, db.defPart.Follows chain added expected →
      (db.markInvalid hashes).defPart.Follows chain added expected
  | [], _, hfollows => hfollows
  | hash :: hashes, db, hfollows => by
    have hmarks := DefPart.marks_markInvalid hfollows.settled hash
    rw [← TxDB.defPart_saveTxFlag] at hmarks
    exact @follows_markInvalid _ _ _ hashes _ (DefPart.follows_of_marks hfollows hmarks)

theorem follows_rollBackWallet {db : TxDB} {chain : List (List Hash256)} {added : List Hash256}
    (hfollows : db.defPart.Follows chain added DefPart.unconfirmed) {block : ℤ}
    (hblock : -1 ≤ block) (subKeys : List (TxEntity × TxEntity)) (coinbases : List Hash256) :
    match db.rollBackWallet block subKeys coinbases with
    | .error (_, after) => after.defPart.Follows chain added DefPart.unconfirmed
    | .ok after =>
      after.defPart.Follows (chain.take (block + 1).toNat) added DefPart.unconfirmed := by
  have hheight := hfollows.height
  have himport : (db.imports 0).block = db.defPart.block := hfollows.importHeight
  unfold TxDB.rollBackWallet
  by_cases hhigh : (db.imports 0).block ≤ block
  · rw [if_pos hhigh]
    by_cases hsame : block = (db.imports 0).block
    · rw [if_pos hsame]
      rw [List.take_of_length_le (by omega)]
      exact hfollows
    rw [if_neg hsame]
    exact hfollows
  rw [if_neg hhigh]
  have hcounted := TxDB.defPart_foldlM
    (fun db (entities : TxEntity × TxEntity) =>
      @TxDB.defPart_decrementSubKey db 0 entities.1 entities.2) subKeys db
  cases hrun : subKeys.foldlM
      (fun db entities => db.decrementSubKey 0 entities.1 entities.2) db with
  | error err =>
    rw [hrun] at hcounted
    have hpart : err.2.defPart = db.defPart := hcounted
    dsimp only
    rw [hpart]
    exact hfollows
  | ok decremented =>
    rw [hrun] at hcounted
    have hpart : decremented.defPart = db.defPart := hcounted
    have hdefs : decremented.defs.commit = db.defPart.defs := by
      have hsame : decremented.defs = db.defPart.defs := congrArg DefPart.defs hpart
      rw [hsame, Batched.commit_of_settled hfollows.settled]
    have hid : (decremented.imports 0).importId = 0 :=
      (congrArg DefPart.importId hpart).trans hfollows.chainImport
    rcases TxDB.defPart_rollBack hid block with ⟨err, after, herror, hafter⟩ |
      ⟨after, hsuccess, hafter⟩
    · dsimp only
      rw [herror]
      refine follows_markInvalid ?_
      rw [hpart] at hafter
      rcases hafter with hafter | hafter
      · rw [hafter]
        exact hfollows
      rw [hafter]
      exact DefPart.follows_clear hfollows
    dsimp only
    rw [hsuccess]
    refine follows_markInvalid ?_
    rw [hafter, hpart, hdefs]
    refine DefPart.follows_lower (DefPart.follows_clear hfollows) hblock ?_
    change block ≤ db.defPart.block
    omega

/-- A block whose calls succeed is committed on top of what waited and of its own
transactions. -/
theorem follows_connectBlock {db after : TxDB} {chain : List (List Hash256)}
    {added : List Hash256} {calls : List StoreCall}
    (hfollows : db.defPart.Follows chain added DefPart.unconfirmed)
    (hplaces : ∀ storeCall ∈ calls, storeCall.Places chain chain.length)
    (hconnect : db.connectBlock calls = .ok after) :
    ∃ (part : DefPart) (more : List Hash256), after.defPart = part.committed
      ∧ part.Follows chain more (fun hash =>
        if hash ∈ calls.filterMap StoreCall.hash then (chain.length : ℤ) else -1)
      ∧ (∀ hash, hash ∈ more ↔ hash ∈ calls.filterMap StoreCall.hash ++ added)
      ∧ part.block = db.block ∧ part.defs = db.defs
      ∧ ∀ hash ∉ calls.filterMap StoreCall.hash, part.update hash = db.rawUpdatePool hash := by
  obtain ⟨mid, hmid, hcommit⟩ := Folding.bind_eq_ok.mp hconnect
  have hbefore := @TxDB.defPart_beforeCommit db 0
  rw [← hbefore] at hfollows
  obtain ⟨⟨hblock, hdefs, hupdate⟩, more, hmore, hfollowsMid⟩ := follows_calls hfollows hplaces hmid
  rw [hbefore] at hblock hdefs hupdate
  exact ⟨mid.defPart, more, TxDB.defPart_commit hfollowsMid.chainImport hcommit, hfollowsMid, hmore,
    hblock, hdefs, hupdate⟩

namespace Ledger

variable {ledger after : Ledger} {calls : List StoreCall}

theorem connect_eq_some (hconnect : ledger.connect calls = some after) :
    ledger.db.connectBlock calls = .ok after.db
      ∧ after.chain = ledger.chain ++ [calls.filterMap StoreCall.hash]
      ∧ after.added = calls.filterMap StoreCall.hash ++ ledger.added := by
  unfold connect at hconnect
  split at hconnect
  · cases hconnect
  next db hdb =>
  cases hconnect
  exact ⟨hdb, rfl, rfl⟩

/-- For a definition on disk, waiting at the commit is being replaced. -/
theorem rewrites_iff {part : DefPart} {more : List Hash256}
    (hfollows : part.Follows ledger.chain more fun hash =>
      if hash ∈ calls.filterMap StoreCall.hash then (ledger.chain.length : ℤ) else -1)
    (hblock : part.block = ledger.db.block) (hdefs : part.defs = ledger.db.defs)
    (hupdate : ∀ hash ∉ calls.filterMap StoreCall.hash,
      part.update hash = ledger.db.rawUpdatePool hash) :
    part.Rewrites ↔ ledger.Rewrites calls := by
  have hwaits : ∀ {hash txDef}, ledger.db.defs.read hash = some txDef →
      (part.Waits hash
        ↔ ledger.db.rawUpdatePool hash ≠ none ∨ hash ∈ calls.filterMap StoreCall.hash) := by
    intro hash txDef htxDef
    by_cases hhash : hash ∈ calls.filterMap StoreCall.hash
    · refine iff_of_true (hfollows.waits hash ?_) (.inr hhash)
      rw [if_pos hhash]
      omega
    have hraw : part.raw hash = none := by
      by_contra hraw
      have hunread := (hfollows.raw_new hash hraw).2
      rw [hdefs, htxDef] at hunread
      cases hunread
    rw [DefPart.Waits, hraw, hupdate hash hhash]
    simp [hhash]
  constructor
  · intro hrewrites hash txDef htxDef hnext hvalid
    exact (hwaits htxDef).mp (hrewrites hash txDef (hdefs ▸ htxDef) (hblock ▸ hnext) hvalid)
  intro hrewrites hash txDef htxDef hnext hvalid
  rw [hdefs] at htxDef
  exact (hwaits htxDef).mpr (hrewrites hash txDef htxDef (hblock ▸ hnext) hvalid)

theorem Reached.follows (hreached : Reached Ledger.Rewrites ledger) : ledger.Follows := by
  induction hreached with
  | initial =>
    refine ⟨rfl, rfl, rfl, fun _ => rfl, ?_, ?_, ?_, ?_, ?_, ?_, ?_, ?_, ?_, ?_⟩
    case refine_1 => exact fun _ _ hraw => nomatch hraw
    case refine_2 => exact fun _ _ hupdate => nomatch hupdate
    case refine_3 => exact fun _ hraw => (hraw rfl).elim
    case refine_4 => exact fun _ hupdate => (hupdate rfl).elim
    case refine_5 => exact fun _ hexpected => (hexpected rfl).elim
    case refine_6 => exact fun _ _ _ hblock => nomatch hblock
    case refine_7 => exact fun _ _ _ hread => nomatch hread
    case refine_8 => exact fun _ hadded => nomatch hadded
    case refine_9 => exact fun _ _ hread => nomatch hread
    case refine_10 => exact fun _ hexpected => nomatch hexpected
  | called _ storeCall hplaces hfollows =>
    have hcalled := (follows_run hfollows hplaces).2
    have hexpected : (fun hash => if hash ∈ storeCall.hash then (-1 : ℤ)
        else DefPart.unconfirmed hash) = DefPart.unconfirmed := by
      funext hash
      exact ite_self _
    rw [hexpected] at hcalled
    exact hcalled
  | invalidated _ hashes hfollows => exact follows_markInvalid hfollows
  | connected _ calls hplaces hrewrites hconnect hfollows =>
    obtain ⟨hblock, hchain, hadded⟩ := connect_eq_some hconnect
    obtain ⟨part, more, hafter, hpart, hmore, hheight, hdefs, hupdate⟩ :=
      follows_connectBlock hfollows hplaces hblock
    have hcommitted := DefPart.follows_committed hpart
      (fun hash hhash => if_pos hhash) (fun hash hhash => if_neg hhash)
      ((rewrites_iff hpart hheight hdefs hupdate).mpr hrewrites)
    rw [Follows, hafter, hchain, hadded]
    exact hcommitted.of_added hmore
  | disconnected _ block hblock subKeys coinbases hfollows =>
    have hback := follows_rollBackWallet hfollows hblock subKeys coinbases
    unfold disconnect
    split at hback
    · exact hback
    exact hback

theorem Follows.reports (hfollows : ledger.Follows) : ledger.Reports := by
  intro hash hhash
  have hlow : -1 ≤ ledger.db.defPart.block := by
    have hheight := DefPart.Follows.height hfollows
    omega
  have hstored : ∀ {txDef : TxDefRow}, ¬ledger.db.defPart.Waits hash →
      ledger.db.defs.read hash = some txDef →
      ledger.db.getTx hash = some (ledger.db.defPart.report txDef) := by
    intro txDef hwaits htxDef
    have hfound := DefPart.getTx_of_not_waits hwaits
    have hread : ledger.db.defPart.defs.read hash = some txDef := htxDef
    rw [hread] at hfound
    exact hfound
  by_cases hchain : ∃ block ∈ ledger.chain, hash ∈ block
  · obtain ⟨block, hmem, hblock⟩ := hchain
    obtain ⟨height, hheight⟩ := List.mem_iff_getElem?.mp hmem
    obtain ⟨hwaits, txDef, htxDef, hplace⟩ :=
      DefPart.Follows.confirmed hfollows height block hash hheight hblock
    have hbelow : txDef.block ≤ ledger.db.defPart.block := by
      obtain ⟨hindex, -⟩ := List.getElem?_eq_some_iff.mp hheight
      rw [DefPart.Follows.height hfollows]
      omega
    refine ⟨txDef, ?_, ?_, fun hnone => (hnone block hmem hblock).elim⟩
    · rw [hstored hwaits htxDef, DefPart.report_block_of_le hbelow]
    intro other otherBlock hother hhashOther
    obtain ⟨-, stored, hsame, hotherPlace⟩ :=
      DefPart.Follows.confirmed hfollows other otherBlock hash hother hhashOther
    have hread : ledger.db.defPart.defs.read hash = some txDef := htxDef
    rw [hread] at hsame
    cases hsame
    exact hotherPlace
  have hnone : ∀ block ∈ ledger.chain, hash ∉ block := fun block hmem hblock =>
    hchain ⟨block, hmem, hblock⟩
  have hunconfirmed : ∀ {txDef : TxDefRow}, ledger.db.getTx hash = some txDef →
      txDef.block = -1 ∨ txDef.invalid = true →
      ∃ txDef, ledger.db.getTx hash = some txDef
        ∧ (∀ (height : ℕ) block, ledger.chain[height]? = some block → hash ∈ block →
          txDef.block = height)
        ∧ ((∀ block ∈ ledger.chain, hash ∉ block) → txDef.block = -1 ∨ txDef.invalid = true) := by
    intro txDef htxDef hout
    refine ⟨txDef, htxDef, ?_, fun _ => hout⟩
    intro height block hheight hblock
    exact (hnone block (List.mem_of_getElem? hheight) hblock).elim
  by_cases hwaits : ledger.db.defPart.Waits hash
  · have hwaiting : ∃ txDef : TxDefRow, txDef.block = -1 ∧
        ledger.db.getTx hash = some (ledger.db.defPart.report txDef) := by
      rw [TxDB.getTx_defPart, DefPart.getTx]
      cases hraw : ledger.db.defPart.raw hash with
      | some txDef =>
        exact ⟨txDef, DefPart.Follows.raw_block hfollows hash txDef hraw, rfl⟩
      | none =>
        obtain ⟨txDef, hupdate⟩ := Option.ne_none_iff_exists'.mp
          (hwaits.resolve_left (not_not.mpr hraw))
        rw [hupdate]
        exact ⟨txDef, DefPart.Follows.update_block hfollows hash txDef hupdate, rfl⟩
    obtain ⟨txDef, hblock, hfound⟩ := hwaiting
    rw [DefPart.report_block_of_le (hblock ▸ hlow)] at hfound
    exact hunconfirmed hfound (.inl hblock)
  obtain ⟨txDef, htxDef⟩ := Option.ne_none_iff_exists'.mp
    ((DefPart.Follows.known hfollows hash hhash).resolve_left hwaits)
  refine hunconfirmed (hstored hwaits htxDef) ?_
  rcases DefPart.Follows.stale hfollows hash txDef hnone htxDef with hblock | habove | hinvalid
  · rw [DefPart.report_block_of_le (hblock ▸ hlow)]
    exact .inl hblock
  · rw [DefPart.report, if_pos habove]
    exact .inl rfl
  right
  unfold DefPart.report
  split
  · exact hinvalid
  exact hinvalid

/-- A definition that is left on disk with the height of the block is reported there, though
no block of the chain has the transaction. -/
theorem not_reports_of_not_rewrites (hfollows : ledger.Follows)
    (hplaces : ∀ storeCall ∈ calls, storeCall.Places ledger.chain ledger.chain.length)
    (hconnect : ledger.connect calls = some after) (hrewrites : ¬ledger.Rewrites calls) :
    ¬after.Reports := by
  obtain ⟨hblock, hchain, hadded⟩ := connect_eq_some hconnect
  obtain ⟨part, more, hafter, hpart, hmore, hheight, hdefs, hupdate⟩ :=
    follows_connectBlock hfollows hplaces hblock
  rw [← rewrites_iff hpart hheight hdefs hupdate] at hrewrites
  unfold DefPart.Rewrites at hrewrites
  push Not at hrewrites
  obtain ⟨hash, txDef, htxDef, hnext, hvalid, hwaits⟩ := hrewrites
  have hlength := hpart.height
  have hread : part.committed.defs.read hash = some txDef :=
    (DefPart.read_committed_of_not_waits hpart.settled hwaits).trans htxDef
  have hfound : after.db.getTx hash = some txDef := by
    have hnone : ¬part.committed.Waits hash := (DefPart.waits_iff hash).mpr ⟨rfl, rfl⟩
    have hreport := DefPart.getTx_of_not_waits hnone
    have hbelow : txDef.block ≤ part.committed.block := by
      have himport := hpart.importHeight
      change txDef.block ≤ part.importBlock + 1
      omega
    rw [hread, Option.map_some, DefPart.report_block_of_le hbelow] at hreport
    rw [TxDB.getTx_defPart, hafter, hreport]
  have hhash : hash ∉ calls.filterMap StoreCall.hash := by
    intro hhash
    refine hwaits (hpart.waits hash ?_)
    rw [if_pos hhash]
    omega
  intro hreports
  have hmem : hash ∈ after.added := by
    rw [hadded, ← hmore]
    exact hpart.stored_added hash txDef htxDef (by omega)
  obtain ⟨reported, hreported, -, hout⟩ := hreports hash hmem
  rw [hfound] at hreported
  cases hreported
  have hnone : ∀ block ∈ after.chain, hash ∉ block := by
    intro block hmemBlock hhashBlock
    rw [hchain, List.mem_append, List.mem_singleton] at hmemBlock
    rcases hmemBlock with hold | rfl
    · obtain ⟨height, hat⟩ := List.mem_iff_getElem?.mp hold
      obtain ⟨-, stored, hstored, hplace⟩ := hpart.confirmed height block hash hat hhashBlock
      obtain ⟨hindex, -⟩ := List.getElem?_eq_some_iff.mp hat
      rw [htxDef] at hstored
      cases hstored
      omega
    · exact hhash hhashBlock
  rcases hout hnone with hblockOut | hinvalid
  · omega
  rw [hvalid] at hinvalid
  cases hinvalid

/-- In every run whose blocks rewrite, `GetTx` answers by the chain; and a further block
keeps that exactly when it rewrites too. -/
theorem heights_follow_chain (hreached : Reached Ledger.Rewrites ledger) :
    ledger.Reports ∧ ∀ calls after,
      (∀ storeCall ∈ calls, storeCall.Places ledger.chain ledger.chain.length) →
      ledger.connect calls = some after → (after.Reports ↔ ledger.Rewrites calls) := by
  refine ⟨hreached.follows.reports, fun calls after hplaces hconnect => ⟨?_, ?_⟩⟩
  · intro hreports
    by_contra hrewrites
    exact not_reports_of_not_rewrites hreached.follows hplaces hconnect hrewrites hreports
  intro hrewrites
  exact (Reached.connected hreached calls hplaces hrewrites hconnect).follows.reports

/-- A transaction of a subscribed address, in block 1. -/
def paid (block : ℤ) : StoreCall :=
  .addTx ⟨7, 200, 200, block, 0, 8, 81, 1, 4, 1500000000⟩ [⟨5, 0x00000103⟩]

def next (ledger : Ledger) (calls : List StoreCall) : Ledger :=
  (ledger.connect calls).getD ledger

theorem connect_next {ledger : Ledger} {calls : List StoreCall}
    (hconnects : (ledger.connect calls).isSome) :
    ledger.connect calls = some (ledger.next calls) := by
  obtain ⟨after, hafter⟩ := Option.isSome_iff_exists.mp hconnects
  rw [next, hafter, Option.getD_some]

/-- The address is subscribed, and its transaction is in block 1. -/
def paidLedger : Ledger :=
  ((initial.call (.addEntity ⟨5, 0x00000103⟩ 0)).next []).next [paid 1]

theorem reached_paid : Reached Rewrites paidLedger := by
  have hsubscribed := Reached.called (@Reached.initial Rewrites)
    (.addEntity ⟨5, 0x00000103⟩ 0) trivial
  have hgenesis : Reached Rewrites ((initial.call (.addEntity ⟨5, 0x00000103⟩ 0)).next []) := by
    refine Reached.connected hsubscribed [] (fun _ h => nomatch h) ?_
      (connect_next (by decide +kernel))
    intro hash txDef hread
    cases hread
  refine Reached.connected hgenesis [paid 1] ?_ ?_ (connect_next (by decide +kernel))
  · intro storeCall hcall
    rw [List.mem_singleton.mp hcall]
    refine ⟨by decide +kernel, ?_⟩
    decide +kernel
  intro hash txDef hread
  cases hread

/-- The block is abandoned, its transaction is never added again, and another block 1 is
connected. -/
def abandonedLedger : Ledger :=
  (paidLedger.disconnect 0 [] []).next []

theorem reached_abandoned : Reached (fun _ _ => True) abandonedLedger := by
  have hpaid := reached_paid.mono fun _ _ _ => trivial
  have hdisconnected := Reached.disconnected hpaid 0 (by decide) [] []
  exact Reached.connected hdisconnected [] (fun _ h => nomatch h) trivial
    (connect_next (by decide +kernel))

theorem heights_follow_chain_paid : paidLedger.Reports :=
  (heights_follow_chain reached_paid).1

theorem not_heights_follow_chain :
    ¬∀ ledger, Reached (fun _ _ => True) ledger → ledger.Reports := by
  intro hall
  obtain ⟨txDef, hfound, -, hout⟩ := hall abandonedLedger reached_abandoned 7 (by decide +kernel)
  have hreported : (abandonedLedger.db.getTx 7).all fun txDef =>
      txDef.block = 1 ∧ txDef.invalid = false := by decide +kernel
  rw [hfound, Option.all_some, decide_eq_true_eq] at hreported
  rcases hout (by decide +kernel) with hblock | hinvalid
  · rw [hreported.1] at hblock
    cases hblock
  rw [hreported.2] at hinvalid
  cases hinvalid

end Ledger

end Amberchain.Wallet
