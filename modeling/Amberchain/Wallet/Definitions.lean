import Amberchain.Wallet.TxDB

/-!
# The definitions of the chain import

The part of the store from which `GetTx` answers, and what each function does to it in
the chain import.  List rows, sub-keys and subscriptions leave it alone.
-/

namespace Amberchain.Wallet

/-- The height, the chain import's number and height, the definitions that wait, and those
on disk. -/
structure DefPart where
  block : ℤ
  importId : ℤ
  importBlock : ℤ
  raw : Hash256 → Option TxDefRow
  update : Hash256 → Option TxDefRow
  defs : Batched Hash256 TxDefRow

namespace TxDB

def defPart (db : TxDB) : DefPart where
  block := db.block
  importId := (db.imports 0).importId
  importBlock := (db.imports 0).block
  raw := db.rawMemPools 0
  update := db.rawUpdatePool
  defs := db.defs

end TxDB

namespace DefPart

def report (part : DefPart) (txDef : TxDefRow) : TxDefRow :=
  if part.block < txDef.block then { txDef with block := -1 } else txDef

def getTx (part : DefPart) (hash : Hash256) : Option TxDefRow :=
  ((part.raw hash).or ((part.update hash).or (part.defs.read hash))).map part.report

def setRaw (part : DefPart) (hash : Hash256) (txDef : TxDefRow) : DefPart :=
  { part with raw := Function.update part.raw hash (some txDef) }

def setUpdate (part : DefPart) (hash : Hash256) (txDef : TxDefRow) : DefPart :=
  { part with update := Function.update part.update hash (some txDef) }

/-- `AddTx` in the chain import, as far as definitions go. -/
def addTx (part : DefPart) (tx : TxArgs) : DefPart :=
  match part.getTx tx.hash with
  | none => part.setRaw tx.hash (TxDB.newDef tx)
  | some txDef =>
    match part.raw tx.hash with
    | some waiting => part.setRaw tx.hash (waiting.place tx true)
    | none => part.setUpdate tx.hash (txDef.place tx false)

def addSubKeyDef (part : DefPart) (hash : Hash256) (txDef : TxDefRow) : DefPart :=
  match part.getTx hash with
  | some _ => part
  | none => part.setRaw hash txDef

/-- `SaveTxFlag` with `MC_TFL_INVALID` -/
def markInvalid (part : DefPart) (hash : Hash256) : DefPart :=
  match part.raw hash with
  | some txDef => part.setRaw hash (TxDB.changeFlag flagInvalid true txDef)
  | none =>
    let updated := { part with
      update := Function.update part.update hash
        ((part.update hash).map (TxDB.changeFlag flagInvalid true)) }
    match part.defs.read hash with
    | none => updated
    | some txDef =>
      { updated with
        defs := (part.defs.put hash (TxDB.changeFlag flagInvalid true txDef)).commit }

@[simp]
theorem raw_setRaw_self (part : DefPart) (hash : Hash256) (txDef : TxDefRow) :
    (part.setRaw hash txDef).raw hash = some txDef :=
  Function.update_self ..

theorem raw_setRaw_of_ne (part : DefPart) {hash other : Hash256} (txDef : TxDefRow)
    (hother : other ≠ hash) : (part.setRaw hash txDef).raw other = part.raw other :=
  Function.update_of_ne hother ..

@[simp]
theorem update_setUpdate_self (part : DefPart) (hash : Hash256) (txDef : TxDefRow) :
    (part.setUpdate hash txDef).update hash = some txDef :=
  Function.update_self ..

theorem update_setUpdate_of_ne (part : DefPart) {hash other : Hash256} (txDef : TxDefRow)
    (hother : other ≠ hash) : (part.setUpdate hash txDef).update other = part.update other :=
  Function.update_of_ne hother ..

end DefPart

namespace TxDB

variable {db : TxDB}

theorem getTx_defPart (hash : Hash256) : db.getTx hash = db.defPart.getTx hash :=
  rfl

@[simp]
theorem defPart_setMemPool (slot : ℕ) (pool : List TxEntityRow) :
    (db.setMemPool slot pool).defPart = db.defPart :=
  rfl

@[simp]
theorem defPart_addRow (slot : ℕ) (row : TxEntityRow) : (db.addRow slot row).defPart = db.defPart :=
  rfl

@[simp]
theorem defPart_modifyRow (slot index : ℕ) (change : TxEntityRow → TxEntityRow) :
    (db.modifyRow slot index change).defPart = db.defPart :=
  rfl

@[simp]
theorem defPart_rows (rows : Batched RowKey RowValue) :
    ({ db with rows := rows } : TxDB).defPart = db.defPart :=
  rfl

theorem defPart_setImport {slot : ℕ} {imp : TxImport}
    (hid : imp.importId = (db.imports slot).importId)
    (hblock : imp.block = (db.imports slot).block) :
    (db.setImport slot imp).defPart = db.defPart := by
  by_cases hslot : slot = 0
  · subst hslot
    simp [defPart, setImport, hid, hblock]
  simp [defPart, setImport, Function.update_of_ne (Ne.symm hslot)]

@[simp]
theorem defPart_modifyEntity (slot row : ℕ) (change : TxEntityStat → TxEntityStat) :
    (db.modifyEntity slot row change).defPart = db.defPart :=
  defPart_setImport rfl rfl

theorem defPart_setRaw (hash : Hash256) (txDef : TxDefRow) :
    (db.setRaw 0 hash txDef).defPart = db.defPart.setRaw hash txDef := by
  simp [defPart, setRaw, DefPart.setRaw]

theorem defPart_addTxEntity (slot : ℕ) (tx : TxArgs) (newTx : Bool) (entity : TxEntity) :
    (addTxEntity slot tx newTx db entity).defPart = db.defPart := by
  unfold addTxEntity
  split
  · rfl
  split
  · rfl
  dsimp only
  split
  · rw [defPart_modifyRow]
  split
  · rw [defPart_addRow, defPart_modifyEntity]
  rfl

theorem defPart_addTxEntities (slot : ℕ) (tx : TxArgs) (newTx : Bool) (entities : List TxEntity)
    (db : TxDB) : (entities.foldl (addTxEntity slot tx newTx) db).defPart = db.defPart := by
  induction entities generalizing db with
  | nil => rfl
  | cons entity entities ih => rw [List.foldl_cons, ih, defPart_addTxEntity]

/-- In the chain import every transaction is taken. -/
theorem defPart_addTx (hid : (db.imports 0).importId = 0) (tx : TxArgs)
    (entities : List TxEntity) : (db.addTx 0 tx entities).defPart = db.defPart.addTx tx := by
  have hchain : db.addTx 0 tx entities =
      (entities.foldl (addTxEntity 0 tx (db.getTx tx.hash).isNone) (db.addRaw 0 tx)).addUpdate
        (db.getTx tx.hash) (db.rawMemPools 0 tx.hash).isNone tx := by
    simp [addTx, hid]
  have hupdate : ∀ {added : TxDB}, added.defPart = (db.addRaw 0 tx).defPart →
      (added.addUpdate (db.getTx tx.hash) (db.rawMemPools 0 tx.hash).isNone tx).defPart =
        db.defPart.addTx tx := by
    intro added hadded
    unfold addRaw at hadded
    cases hfound : db.getTx tx.hash with
    | none =>
      rw [hfound] at hadded
      have hfound' : db.defPart.getTx tx.hash = none := hfound
      rw [DefPart.addTx, hfound', addUpdate, hadded, defPart_setRaw]
    | some txDef =>
      rw [hfound] at hadded
      have hfound' : db.defPart.getTx tx.hash = some txDef := hfound
      rw [DefPart.addTx, hfound']
      cases hraw : db.rawMemPools 0 tx.hash with
      | some waiting =>
        have hraw' : db.defPart.raw tx.hash = some waiting := hraw
        rw [hraw] at hadded
        rw [hraw', addUpdate, Option.isNone_some, if_neg Bool.false_ne_true, hadded, defPart_setRaw]
      | none =>
        have hraw' : db.defPart.raw tx.hash = none := hraw
        rw [hraw] at hadded
        rw [hraw', addUpdate, Option.isNone_none, if_pos rfl, ← hadded]
        have hpool : added.rawUpdatePool = db.rawUpdatePool := congrArg DefPart.update hadded
        simp only [defPart, DefPart.setUpdate, hpool]
  rw [hchain]
  exact hupdate (defPart_addTxEntities 0 tx _ entities _)

theorem defPart_addSubKeyDef (hash : Hash256) (subKeySize : ℕ) (flags : BitVec 32)
    (timeReceived : ℕ) : (db.addSubKeyDef 0 hash subKeySize flags timeReceived).defPart =
      db.defPart.addSubKeyDef hash
        ⟨hash, subKeySize, subKeySize, -1, -1, 0, 0, 0, timeReceived, flags⟩ := by
  unfold addSubKeyDef DefPart.addSubKeyDef
  rw [getTx_defPart]
  cases db.defPart.getTx hash with
  | some txDef => rfl
  | none => exact defPart_setRaw _ _

theorem defPart_saveTxFlag (hash : Hash256) :
    (db.saveTxFlag hash flagInvalid true).store.defPart = db.defPart.markInvalid hash := by
  unfold saveTxFlag DefPart.markInvalid
  cases hraw : db.rawMemPools 0 hash with
  | some txDef =>
    have hraw' : db.defPart.raw hash = some txDef := hraw
    rw [hraw']
    exact defPart_setRaw _ _
  | none =>
    have hraw' : db.defPart.raw hash = none := hraw
    rw [hraw']
    cases hread : db.defs.read hash with
    | none =>
      have hread' : db.defPart.defs.read hash = none := hread
      simp only [hread']
      rfl
    | some txDef =>
      have hread' : db.defPart.defs.read hash = some txDef := hread
      simp only [hread']
      rfl

theorem defPart_countSubKey (slot : ℕ) (entity : TxEntity) (generation : ℤ) :
    (db.countSubKey slot entity generation).2.defPart = db.defPart := by
  unfold countSubKey
  dsimp only
  split
  · exact defPart_modifyRow _ _ _
  exact defPart_addRow _ _

theorem defPart_incrementSubKey (slot : ℕ) (parentEntity entity : TxEntity)
    (subKeyHash : Hash160) (txHash : Hash256) (block : ℤ) (flags : BitVec 32) (newTx : Bool) :
    (db.incrementSubKey slot parentEntity entity subKeyHash txHash block flags newTx).store.defPart =
      db.defPart := by
  unfold incrementSubKey
  dsimp only
  split
  · split
    · split
      · simp only [Outcome.store, defPart_addRow, defPart_modifyEntity]
        exact defPart_countSubKey _ _ _
      · exact defPart_countSubKey _ _ _
    · rfl
  rfl

theorem defPart_decrementSubKey (slot : ℕ) (parentEntity entity : TxEntity) :
    (db.decrementSubKey slot parentEntity entity).store.defPart = db.defPart := by
  unfold decrementSubKey
  dsimp only
  split
  · rfl
  split
  · exact defPart_modifyRow _ _ _
  exact defPart_addRow _ _

/-- Subscribing commits the definitions that wait in the batch. -/
theorem defPart_addEntity (slot : ℕ) (entity : TxEntity) (flags : BitVec 32) :
    (db.addEntity slot entity flags).store.defPart = db.defPart
      ∨ (db.addEntity slot entity flags).store.defPart =
        { db.defPart with defs := db.defs.commit } := by
  unfold addEntity
  dsimp only
  split
  · exact .inl rfl
  right
  have himports : (db.setImport slot { db.imports slot with
      entities := (db.imports slot).entities ++ [⟨entity, flags, 0, 0, 0⟩] }).defPart =
        db.defPart := defPart_setImport rfl rfl
  exact congrArg (fun part : DefPart => { part with defs := db.defs.commit }) himports

theorem defPart_beforeCommit (slot : ℕ) : (db.beforeCommit slot).defPart = db.defPart := by
  unfold beforeCommit
  dsimp only
  split
  · rfl
  rw [defPart_setMemPool]
  exact defPart_setImport rfl rfl

/-- What waits goes to disk, and the height is the block's. -/
theorem defPart_commit (hid : (db.imports 0).importId = 0) {after : TxDB}
    (hcommit : db.commit 0 = .ok after) : after.defPart = { db.defPart with
      block := db.defPart.importBlock + 1
      importBlock := db.defPart.importBlock + 1
      raw := fun _ => none
      update := fun _ => none
      defs := ((db.defs.putAll (db.rawMemPools 0)).putAll db.rawUpdatePool).commit } := by
  unfold commit at hcommit
  split at hcommit
  · cases hcommit
  cases hcommit
  simp [defPart, commitDefs, hid]

theorem defPart_rollBackSubKey (row : TxEntityRow) :
    (rollBackSubKey db row).store.defPart = db.defPart := by
  unfold rollBackSubKey
  dsimp only
  split
  · split
    · split
      · rfl
      · rfl
    · rfl
  rfl

theorem defPart_trimRows (slot index : ℕ) (stat : TxEntityStat) (block : ℤ) :
    ∀ (pos : ℕ) (db : TxDB), (trimRows slot index stat block pos db).store.defPart = db.defPart
  | 0, _ => rfl
  | pos + 1, db => by
    unfold trimRows
    split
    · rfl
    split
    · rw [defPart_trimRows slot index stat block pos, defPart_modifyEntity, defPart_rows]
    rfl

theorem defPart_bind {first : Outcome} {next : TxDB → Outcome} {part : DefPart}
    (hfirst : first.store.defPart = part)
    (hnext : ∀ db, first = .ok db → (next db).store.defPart = db.defPart) :
    (Outcome.store (first >>= next)).defPart = part := by
  cases first with
  | error err => exact hfirst
  | ok db => exact (hnext db rfl).trans hfirst

theorem defPart_foldlM {Item : Type} {step : TxDB → Item → Outcome}
    (hstep : ∀ db item, (step db item).store.defPart = db.defPart) :
    ∀ (items : List Item) (db : TxDB), (Outcome.store (items.foldlM step db)).defPart = db.defPart
  | [], _ => rfl
  | item :: items, db => by
    rw [List.foldlM_cons]
    exact defPart_bind (hstep db item) fun db _ => defPart_foldlM hstep items db

theorem defPart_rollBackEntity (slot : ℕ) (block : ℤ) (index : ℕ) :
    (rollBackEntity slot block db index).store.defPart = db.defPart := by
  unfold rollBackEntity
  split
  · rfl
  split
  · rfl
  exact defPart_bind ((defPart_trimRows _ _ _ _ _ _).trans (defPart_modifyEntity _ _ _))
    fun trimmed _ => defPart_modifyEntity _ _ _

/-- What `RollBack` makes of the definitions once the sub-key rows are removed. -/
theorem defPart_rollBackLists (hid : (db.imports 0).importId = 0) (block : ℤ) :
    (∃ err after, db.rollBackLists 0 block = .error (err, after)
      ∧ after.defPart = { db.defPart with update := fun _ => none })
      ∨ ∃ after, db.rollBackLists 0 block = .ok after ∧ after.defPart = { db.defPart with
          block := block
          importBlock := block
          update := fun _ => none
          defs := db.defs.commit } := by
  have hloop := defPart_foldlM (fun db index => @defPart_rollBackEntity db 0 block index)
    (List.range (db.imports 0).entities.length)
    { db.setMemPool 0 ((db.memPools 0).filter fun row => row.entity.timeReceived) with
      rawUpdatePool := fun _ => none }
  unfold rollBackLists
  simp only [hid, if_true]
  cases hrun : (List.range (db.imports 0).entities.length).foldlM (rollBackEntity 0 block)
    { db.setMemPool 0 ((db.memPools 0).filter fun row => row.entity.timeReceived) with
      rawUpdatePool := fun _ => none } with
  | error err =>
    rw [hrun] at hloop
    exact .inl ⟨err.1, err.2, rfl, hloop⟩
  | ok trimmed =>
    rw [hrun] at hloop
    have hpart : trimmed.defPart = { db.defPart with update := fun _ => none } := hloop
    have hdefs : trimmed.defs = db.defs := congrArg DefPart.defs hpart
    have hraw : trimmed.rawMemPools 0 = db.rawMemPools 0 := congrArg DefPart.raw hpart
    have hupdate : trimmed.rawUpdatePool = fun _ => none := congrArg DefPart.update hpart
    have hnumber : (trimmed.imports 0).importId = (db.imports 0).importId :=
      congrArg DefPart.importId hpart
    refine .inr ⟨_, rfl, ?_⟩
    simp [defPart, setImport, hdefs, hraw, hupdate, hnumber]

/-- What `RollBack` makes of the definitions: on an error the height stays. -/
theorem defPart_rollBack (hid : (db.imports 0).importId = 0) (block : ℤ) :
    (∃ err after, db.rollBack 0 block = .error (err, after) ∧ (after.defPart = db.defPart
        ∨ after.defPart = { db.defPart with update := fun _ => none }))
      ∨ ∃ after, db.rollBack 0 block = .ok after ∧ after.defPart = { db.defPart with
          block := block
          importBlock := block
          update := fun _ => none
          defs := db.defs.commit } := by
  have hrows := defPart_foldlM (fun db row => @defPart_rollBackSubKey db row)
    (db.memPools 0) db
  unfold rollBack
  cases hrun : (db.memPools 0).foldlM rollBackSubKey db with
  | error err =>
    rw [hrun] at hrows
    exact .inl ⟨err.1, err.2, rfl, .inl hrows⟩
  | ok decremented =>
    rw [hrun] at hrows
    have hpart : decremented.defPart = db.defPart := hrows
    have hdefs : decremented.defs = db.defs := congrArg DefPart.defs hpart
    have hnumber : (decremented.imports 0).importId = 0 :=
      (congrArg DefPart.importId hpart).trans hid
    have hlists := defPart_rollBackLists hnumber block
    rw [hpart, hdefs] at hlists
    rcases hlists with ⟨err, after, herror, hafter⟩ | hsuccess
    · exact .inl ⟨err, after, herror, .inr hafter⟩
    exact .inr hsuccess

end TxDB

end Amberchain.Wallet
