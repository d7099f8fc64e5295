import Amberchain.Wallet.ListState
import Mathlib.Data.List.Nodup

/-!
# Adding rows

`AddTx`, `IncrementSubKey`, `AddEntity` and `BeforeCommit` keep the lists exact.
-/

namespace Amberchain.Wallet

theorem TxDB.isAnchor_of_tempPos {row : TxEntityRow} (hpos : row.tempPos ≠ 0) :
    TxDB.isAnchor row = false := by
  simp [TxDB.isAnchor, hpos]

theorem TxDB.isAnchor_of_not_subKey {row : TxEntityRow} (hsubKey : row.entity.subKey = false) :
    TxDB.isAnchor row = false := by
  simp [TxDB.isAnchor, hsubKey]

theorem waiting_eq_rowsOf {entity : TxEntity} (hsubKey : entity.subKey = false)
    (pool : List TxEntityRow) : waiting pool entity = rowsOf pool entity := by
  rw [waiting, List.filter_eq_self]
  intro row hrow
  rw [TxDB.isAnchor_of_not_subKey (by rw [(mem_rowsOf.mp hrow).2, hsubKey])]
  rfl

theorem forall_mem_modify {Item : Type*} {holds : Item → Prop} {change : Item → Item}
    (hchange : ∀ item, holds item → holds (change item)) :
    ∀ {items : List Item} {index : ℕ}, (∀ item ∈ items, holds item) →
      ∀ item ∈ items.modify index change, holds item
  | [], _, _, item, hitem => by simp at hitem
  | first :: items, 0, hall, item, hitem => by
    rw [List.modify_zero_cons, List.mem_cons] at hitem
    rcases hitem with rfl | hitem
    · exact hchange first (hall first List.mem_cons_self)
    · exact hall item (List.mem_cons_of_mem _ hitem)
  | first :: items, index + 1, hall, item, hitem => by
    rw [List.modify_succ_cons, List.mem_cons] at hitem
    rcases hitem with rfl | hitem
    · exact hall item List.mem_cons_self
    exact forall_mem_modify hchange
      (fun other hother => hall other (List.mem_cons_of_mem _ hother)) item hitem

theorem modify_append_cons_cons {Item : Type*} (before : List Item) (first second : Item)
    (after : List Item) (change : Item → Item) :
    (before ++ first :: second :: after).modify (before.length + 1) change =
      before ++ first :: change second :: after := by
  induction before with
  | nil => rfl
  | cons item before ih =>
    rw [List.cons_append, List.length_cons, List.modify_succ_cons, ih, List.cons_append]

theorem map_modify_of_forall {Item Seen : Type*} {seen : Item → Seen} {change : Item → Item}
    (hchange : ∀ item, seen (change item) = seen item) :
    ∀ {items : List Item} {index : ℕ}, (items.modify index change).map seen = items.map seen
  | [], _ => by simp
  | item :: items, 0 => by rw [List.modify_zero_cons, List.map_cons, List.map_cons, hchange]
  | item :: items, index + 1 => by
    rw [List.modify_succ_cons, List.map_cons, List.map_cons, map_modify_of_forall hchange]

/-- Only what is read of the list counts. -/
theorem ListState.congr {chained : Prop} {read after : RowKey → Option RowValue} {block next : ℤ}
    {stat found : Option TxEntityStat} {pool more : List TxEntityRow} {entity : TxEntity}
    {confirmed size : ℤ} (hstate : ListState chained read block stat pool entity confirmed size)
    (hread : ∀ pos, after ⟨entity, 0, pos⟩ = read ⟨entity, 0, pos⟩)
    (hblock : entity.timeReceived = false → block ≤ next)
    (hstat : entity.subKey = false → found = stat) (hrows : rowsOf more entity = rowsOf pool entity) :
    ListState chained after next found more entity confirmed size where
  nonneg := hstate.nonneg
  stored := fun pos => by rw [hread, hstate.stored]
  ordered := by
    intro hchained hchain pos later value nextValue hpos hlater
    rw [hread] at hpos hlater
    exact hstate.ordered hchained hchain pos later value nextValue hpos hlater
  below := by
    intro hchained hchain pos value hpos
    rw [hread] at hpos
    exact Int.le_trans (hstate.below hchained hchain pos value hpos) (hblock hchain)
  numbered := by
    rw [waiting, hrows]
    exact hstate.numbered
  plain := by
    intro hsubKey
    rw [hstat hsubKey]
    exact hstate.plain hsubKey
  counted := by
    intro hsubKey
    rw [hread]
    exact hstate.counted hsubKey
  opened := by
    intro hsubKey
    rw [hrows]
    exact hstate.opened hsubKey

namespace TxDB

variable {chained : Prop} {db : TxDB} {entity : TxEntity} {confirmed size : ℤ}

/-- The definitions do not matter. -/
theorem Exact.congr {after : TxDB} (hexact : db.Exact chained) (hrows : after.rows = db.rows)
    (himports : after.imports 0 = db.imports 0) (hpool : after.memPools 0 = db.memPools 0) :
    after.Exact chained := by
  have hstat : after.statOf = db.statOf := by
    funext entity
    rw [statOf, statOf, himports]
  constructor
  case settled => rw [hrows]; exact hexact.settled
  case chainImport => rw [himports]; exact hexact.chainImport
  case subscribed => rw [himports]; exact hexact.subscribed
  case nodup => rw [himports]; exact hexact.nodup
  case keys => rw [hpool]; exact hexact.keys
  case chunked => rw [hpool]; exact hexact.chunked
  case lists =>
    intro entity
    have hstate := hexact.lists entity
    unfold ListExact at hstate ⊢
    rw [hrows, himports, hpool, hstat]
    exact hstate

@[simp]
theorem memPools_setMemPool_self (pool : List TxEntityRow) :
    (db.setMemPool 0 pool).memPools 0 = pool := by
  simp [setMemPool]

@[simp]
theorem imports_setImport_self (imp : TxImport) : (db.setImport 0 imp).imports 0 = imp := by
  simp [setImport]

@[simp]
theorem imports_modifyEntity (index : ℕ) (change : TxEntityStat → TxEntityStat) :
    (db.modifyEntity 0 index change).imports 0 = (db.imports 0).modifyEntity index change :=
  imports_setImport_self _

/-- A waiting row of a list without sub-keys changes, but not its place. -/
theorem Exact.modifyRow (hexact : db.Exact chained) {index : ℕ} {change : TxEntityRow → TxEntityRow}
    (hkey : ∀ row, (change row).toRowKey = row.toRowKey)
    (hpos : ∀ row, (change row).tempPos = row.tempPos)
    (hsubKey : ∀ row, (db.memPools 0)[index]? = some row → row.entity.subKey = false) :
    (db.modifyRow 0 index change).Exact chained := by
  have hentity : ∀ row, (change row).entity = row.entity := fun row =>
    congrArg RowKey.entity (hkey row)
  constructor
  case settled => exact hexact.settled
  case chainImport => exact hexact.chainImport
  case subscribed => exact hexact.subscribed
  case nodup => exact hexact.nodup
  case keys =>
    refine forall_mem_modify (fun row hrow => ?_) hexact.keys
    exact ⟨(congrArg RowKey.generation (hkey row)).trans hrow.1,
      (congrArg RowKey.pos (hkey row)).trans hrow.2⟩
  case chunked =>
    refine hexact.chunked.modify hentity (fun row => ?_) index
    rw [isAnchor, isAnchor, hentity, hpos]
  case lists =>
    intro entity
    obtain ⟨confirmed, size, hstate⟩ := hexact.lists entity
    refine ⟨confirmed, size, ?_⟩
    by_cases hplain : entity.subKey = false
    · refine { hstate with numbered := ?_, opened := fun hopen => ?_ }
      · have hnumbered := hstate.numbered
        rw [waiting_eq_rowsOf hplain] at hnumbered ⊢
        exact hnumbered.congr (map_rowsOf_modify hentity hpos).symm
      rw [hplain] at hopen
      cases hopen
    refine hstate.congr (fun _ => rfl) (fun _ => Int.le_refl _) (fun _ => rfl) (rowsOf_modify_of_ne hentity ?_)
    intro row hrow hsame
    exact hplain (hsame ▸ hsubKey row hrow)

/-- A row is added to a list without sub-keys, and counted. -/
theorem Exact.addCounted (hexact : db.Exact chained) {index : ℕ} {stat : TxEntityStat} {row : TxEntityRow}
    (hfind : (db.imports 0).findEntity entity = some index) (hstat : db.statOf entity = some stat)
    (hentity : row.entity = entity) (hgeneration : row.generation = 0) (hrowPos : row.pos = 0)
    (hpos : row.tempPos = stat.lastPos + 1) :
    ((db.modifyEntity 0 index TxEntityStat.grow).addRow 0 row).Exact chained := by
  have hsubKey : entity.subKey = false := by
    obtain ⟨found, hfound, hsame, -⟩ := exists_of_findEntity hfind
    rw [← hsame]
    exact (hexact.subscribed found (List.mem_of_getElem? hfound)).2
  have hanchor : isAnchor row = false := isAnchor_of_not_subKey (by rw [hentity, hsubKey])
  have hstatOf := statOf_modifyEntity (fun stat => (rfl : stat.grow.entity = stat.entity)) hfind
  generalize hafter : (db.modifyEntity 0 index TxEntityStat.grow).addRow 0 row = after
  have hpool : after.memPools 0 = db.memPools 0 ++ [row] := by
    rw [← hafter]
    exact memPools_setMemPool_self _
  have himport : after.imports 0 = (db.imports 0).modifyEntity index TxEntityStat.grow := by
    rw [← hafter]
    exact imports_modifyEntity _ _
  have hrows : after.rows = db.rows := by
    rw [← hafter]
    rfl
  have hstatAfter : after.statOf = (db.modifyEntity 0 index TxEntityStat.grow).statOf := by
    rw [← hafter]
    rfl
  constructor
  case settled => rw [hrows]; exact hexact.settled
  case chainImport => rw [himport]; exact hexact.chainImport
  case subscribed =>
    rw [himport]
    refine forall_mem_modify ?_ hexact.subscribed
    exact fun _ hstat => hstat
  case nodup =>
    have hentities : ((db.imports 0).entities.modify index TxEntityStat.grow).map
        (fun stat => stat.entity) = (db.imports 0).entities.map fun stat => stat.entity :=
      map_modify_of_forall fun stat => (rfl : stat.grow.entity = stat.entity)
    rw [himport, TxImport.modifyEntity, hentities]
    exact hexact.nodup
  case keys =>
    rw [hpool]
    intro other hother
    rcases List.mem_append.mp hother with hother | hother
    · exact hexact.keys other hother
    rw [List.mem_singleton.mp hother]
    exact ⟨hgeneration, hrowPos⟩
  case chunked =>
    rw [hpool]
    exact hexact.chunked.append (.row hanchor .nil)
  case lists =>
    intro other
    obtain ⟨confirmed, size, hstate⟩ := hexact.lists other
    have hotherStat := hstatOf other
    rw [← hstatAfter] at hotherStat
    unfold ListExact at hstate ⊢
    rw [hrows, hpool, himport, hotherStat]
    by_cases hother : other = entity
    · subst hother
      have hsize := hstate.plain hsubKey
      rw [hstat, Option.map_some, Option.getD_some, Prod.mk.injEq] at hsize
      refine ⟨confirmed, size + 1,
        { hstate with numbered := ?_, plain := fun _ => ?_, opened := fun hopen => ?_ }⟩
      · rw [waiting_append, waiting_cons_self hanchor hentity]
        exact hstate.numbered.append (Numbered.single (by rw [hpos, hsize.1]))
      · rw [if_pos rfl, hstat, ← hsize.1, ← hsize.2]
        rfl
      rw [hsubKey] at hopen
      cases hopen
    refine ⟨confirmed, size, hstate.congr (fun _ => rfl) (fun _ => Int.le_refl _) (fun _ => ?_) ?_⟩
    · rw [if_neg hother]
    rw [rowsOf_append, rowsOf_cons_of_ne (by rw [hentity]; exact Ne.symm hother)]
    exact List.append_nil _

theorem exact_addTxEntity (hexact : db.Exact chained) (tx : TxArgs) (newTx : Bool) (entity : TxEntity) :
    (addTxEntity 0 tx newTx db entity).Exact chained := by
  unfold addTxEntity
  split
  · exact hexact
  next index hfind =>
  obtain ⟨stat, hget, hentity, hstat⟩ := exists_of_findEntity hfind
  have hfound : (db.imports 0).getEntity (some index) = some stat := hget
  obtain ⟨hgeneration, hsubKey⟩ := hexact.subscribed stat (List.mem_of_getElem? hget)
  rw [hfound]
  dsimp only
  split
  · next mprow hseek =>
    refine hexact.modifyRow (fun _ => rfl) (fun _ => rfl) fun row hrow => ?_
    obtain ⟨found, hfoundRow, hkey, -⟩ := exists_of_seek hseek
    rw [hrow] at hfoundRow
    cases hfoundRow
    have hsame : row.entity = stat.entity := congrArg RowKey.entity hkey
    rw [hsame, hsubKey]
  split
  · exact hexact.addCounted hfind hstat hentity hgeneration rfl rfl
  exact hexact

/-- `AddTx` keeps the lists exact. -/
theorem exact_addTx (hexact : db.Exact chained) (tx : TxArgs) (entities : List TxEntity) :
    (db.addTx 0 tx entities).Exact chained := by
  have hraw : (db.addRaw 0 tx).Exact chained := by
    unfold addRaw
    split
    · exact hexact.congr rfl rfl rfl
    split
    · exact hexact.congr rfl rfl rfl
    · exact hexact
  have hloop : ∀ (entities : List TxEntity) (newTx : Bool) {start : TxDB}, start.Exact chained →
      (entities.foldl (addTxEntity 0 tx newTx) start).Exact chained := by
    intro entities newTx
    induction entities with
    | nil => exact fun hstart => hstart
    | cons entity entities ih =>
      intro start hstart
      exact ih (exact_addTxEntity hstart tx newTx entity)
  unfold addTx
  dsimp only
  split
  · exact hexact
  split
  · unfold addUpdate
    split
    · split
      · exact (hloop entities _ hraw).congr rfl rfl rfl
      · exact hloop entities _ hraw
    · exact hloop entities _ hraw
  exact hloop entities _ hraw

theorem exact_addSubKeyDef (hexact : db.Exact chained) (hash : Hash256) (subKeySize : ℕ)
    (flags : BitVec 32) (timeReceived : ℕ) :
    (db.addSubKeyDef 0 hash subKeySize flags timeReceived).Exact chained := by
  unfold addSubKeyDef
  split
  · exact hexact
  exact hexact.congr rfl rfl rfl

theorem exact_saveTxFlag (hexact : db.Exact chained) (hash : Hash256) (flag : BitVec 32)
    (setFlag : Bool) : (db.saveTxFlag hash flag setFlag).store.Exact chained := by
  unfold saveTxFlag
  split
  · exact hexact.congr rfl rfl rfl
  split
  · exact hexact.congr rfl rfl rfl
  exact hexact.congr (Batched.commit_of_settled hexact.settled) rfl rfl

theorem Exact.setSubKeyPool (hexact : db.Exact chained) {pool : List TxEntityRow} (next : ℤ)
    (hsubKey : entity.subKey = true) (hstate : db.ListExact chained entity confirmed size)
    (hkeys : ∀ row ∈ pool, row.generation = 0 ∧ row.pos = 0) (hchunked : Chunked pool)
    (hother : ∀ other ≠ entity, rowsOf pool other = rowsOf (db.memPools 0) other)
    (hnumbered : Numbered confirmed (waiting pool entity) next)
    (hopened : ∃ anchor first rest, rowsOf pool entity = anchor :: first :: rest
      ∧ isAnchor anchor = true ∧ anchor.txId = 0
      ∧ (∀ row ∈ first :: rest, isAnchor row = false) ∧ first.lastSubKeyPos = next) :
    (db.setMemPool 0 pool).Exact chained := by
  constructor
  case settled => exact hexact.settled
  case chainImport => exact hexact.chainImport
  case subscribed => exact hexact.subscribed
  case nodup => exact hexact.nodup
  case keys => rw [memPools_setMemPool_self]; exact hkeys
  case chunked => rw [memPools_setMemPool_self]; exact hchunked
  case lists =>
    intro other
    by_cases hsame : other = entity
    · subst hsame
      refine ⟨confirmed, next, ?_⟩
      refine { hstate with
        numbered := hnumbered, plain := fun hplain => ?_, opened := fun _ => .inr hopened }
      rw [hsubKey] at hplain
      cases hplain
    obtain ⟨otherConfirmed, otherSize, hotherState⟩ := hexact.lists other
    refine ⟨otherConfirmed, otherSize, ?_⟩
    exact hotherState.congr (fun _ => rfl) (fun _ => Int.le_refl _) (fun _ => rfl) (hother other hsame)

/-- The row that `IncrementSubKey` adds, once the list is counted. -/
theorem Exact.addSubKeyRow (hexact : db.Exact chained) {row : TxEntityRow} (hsubKey : entity.subKey = true)
    (hentity : row.entity = entity) (hgeneration : row.generation = 0) (hrowPos : row.pos = 0)
    (hcount : row.lastSubKeyPos = (db.countSubKey 0 entity 0).1 + 1)
    (hpos : row.tempPos = (db.countSubKey 0 entity 0).1 + 1) :
    ((db.countSubKey 0 entity 0).2.addRow 0 row).Exact chained := by
  obtain ⟨confirmed, size, hstate⟩ := hexact.lists entity
  have hnonneg := hstate.nonneg
  have hle := hstate.numbered.le
  rcases hstate.seek_anchor hexact hsubKey with ⟨hseek, -, hnone⟩ |
    ⟨before, anchor, first, after, hpool, hseek, hbefore, hanchorEntity, hanchor, htxId,
      hfirstEntity, hfirst, hlast, -⟩
  · have hstored : db.storedSubKeyPos entity 0 = confirmed := hstate.counted hsubKey
    have hcounted : db.countSubKey 0 entity 0 = (confirmed, db.addRow 0
        { TxEntityRow.zero entity 0 with lastSubKeyPos := confirmed + 1 }) := by
      rw [countSubKey]
      rw [hseek, hstored]
    rw [hcounted] at hcount hpos ⊢
    generalize hopening : ({ TxEntityRow.zero entity 0 with
      lastSubKeyPos := confirmed + 1 } : TxEntityRow) = opening
    have hopeningEntity : opening.entity = entity := by rw [← hopening]; rfl
    have hopeningAnchor : isAnchor opening = true := by
      rw [← hopening]
      simp [isAnchor, TxEntityRow.zero, hsubKey]
    have hrow : isAnchor row = false := isAnchor_of_tempPos (by omega)
    have hset : ((db.addRow 0 opening).addRow 0 row) =
        db.setMemPool 0 (db.memPools 0 ++ [opening, row]) := by
      simp [addRow, setMemPool]
    have hnew : rowsOf [opening, row] entity = [opening, row] := by
      rw [rowsOf_cons_self hopeningEntity, rowsOf_cons_self hentity]
      rfl
    rw [hset]
    refine hexact.setSubKeyPool (confirmed + 1) hsubKey hstate ?_ ?_ ?_ ?_ ?_
    · intro other hother
      rcases List.mem_append.mp hother with hother | hother
      · exact hexact.keys other hother
      rcases List.mem_cons.mp hother with rfl | hother
      · rw [← hopening]
        exact ⟨rfl, rfl⟩
      rw [List.mem_singleton.mp hother]
      exact ⟨hgeneration, hrowPos⟩
    · exact hexact.chunked.append
        (.opened hopeningAnchor hrow (hentity.trans hopeningEntity.symm) .nil)
    · intro other hother
      rw [rowsOf_append, rowsOf_cons_of_ne (by rw [hopeningEntity]; exact Ne.symm hother),
        rowsOf_cons_of_ne (by rw [hentity]; exact Ne.symm hother)]
      exact List.append_nil _
    · rw [waiting_append, waiting_cons_anchor hopeningAnchor, waiting_cons_self hrow hentity, waiting,
        hnone]
      exact Numbered.single hpos
    refine ⟨opening, row, [], ?_, hopeningAnchor, ?_, ?_, hcount⟩
    · rw [rowsOf_append, hnone, hnew, List.nil_append]
    · rw [← hopening]
      rfl
    intro other hother
    rw [List.mem_singleton.mp hother, hrow]
  · have hcounted : db.countSubKey 0 entity 0 = (size, db.setMemPool 0 (before ++ anchor ::
        { first with lastSubKeyPos := size + 1 } :: after)) := by
      have hnext : (db.memPools 0)[before.length + 1]? = some first := by
        rw [hpool, List.getElem?_append_right (Nat.le_add_right _ 1), Nat.add_sub_cancel_left]
        rfl
      rw [countSubKey]
      rw [hseek]
      dsimp only
      rw [hnext, Option.map_some, Option.getD_some, hlast]
      refine congrArg (Prod.mk size) ?_
      rw [TxDB.modifyRow, hpool, modify_append_cons_cons]
    rw [hcounted] at hcount hpos ⊢
    have hmodified : before ++ anchor :: { first with lastSubKeyPos := size + 1 } :: after =
        (db.memPools 0).modify (before.length + 1) fun row =>
          { row with lastSubKeyPos := size + 1 } := by
      rw [hpool, modify_append_cons_cons]
    have hfirstRow : ∀ row, (db.memPools 0)[before.length + 1]? = some row → row.entity = entity := by
      intro row hrow
      rw [hpool, List.getElem?_append_right (Nat.le_add_right _ 1), Nat.add_sub_cancel_left] at hrow
      cases hrow
      exact hfirstEntity
    have hrow : isAnchor row = false := isAnchor_of_tempPos (by omega)
    have hset : ∀ pool, (db.setMemPool 0 pool).addRow 0 row = db.setMemPool 0 (pool ++ [row]) := by
      intro pool
      simp [addRow, setMemPool]
    have hrows : ∀ grown : TxEntityRow, grown.entity = entity →
        rowsOf (before ++ anchor :: grown :: after) entity =
          anchor :: grown :: rowsOf after entity := by
      intro grown hgrown
      rw [rowsOf_append, hbefore, rowsOf_cons_self hanchorEntity, rowsOf_cons_self hgrown,
        List.nil_append]
    have hwaiting : ∀ grown : TxEntityRow, grown.entity = entity → isAnchor grown = false →
        waiting (before ++ anchor :: grown :: after) entity = grown :: waiting after entity := by
      intro grown hgrown hgrownRow
      rw [waiting, hrows grown hgrown, List.filter_cons_of_neg (by simp [hanchor]),
        List.filter_cons_of_pos (by simp [hgrownRow])]
      rfl
    rw [hset]
    refine hexact.setSubKeyPool (size + 1) hsubKey hstate ?_ ?_ ?_ ?_
      ⟨anchor, { first with lastSubKeyPos := size + 1 }, rowsOf after entity ++ [row], ?_, hanchor, htxId, ?_, rfl⟩
    · intro other hother
      rcases List.mem_append.mp hother with hother | hother
      · rw [hmodified] at hother
        refine forall_mem_modify ?_ hexact.keys other hother
        exact fun _ hkey => hkey
      rw [List.mem_singleton.mp hother]
      exact ⟨hgeneration, hrowPos⟩
    · rw [hmodified]
      refine (hexact.chunked.modify ?_ ?_ _).append (.row hrow .nil)
      · exact fun _ => rfl
      · exact fun _ => rfl
    · intro other hother
      rw [rowsOf_append, rowsOf_cons_of_ne (by rw [hentity]; exact Ne.symm hother), hmodified]
      refine (List.append_nil _).trans (rowsOf_modify_of_ne ?_ ?_)
      · exact fun _ => rfl
      intro found hfound
      rw [hfirstRow found hfound]
      exact Ne.symm hother
    · have hnumbered := hstate.numbered
      have hfirstRow := hfirst first (.head _)
      rw [hpool, hwaiting first hfirstEntity hfirstRow] at hnumbered
      rw [waiting_append, hwaiting _ (by exact hfirstEntity) (by exact hfirstRow),
        waiting_cons_self hrow hentity]
      exact Numbered.append (Numbered.congr rfl hnumbered) (Numbered.single hpos)
    · rw [rowsOf_append, hrows _ (by exact hfirstEntity), rowsOf_cons_self hentity]
      rfl
    intro other hother
    rw [List.mem_cons, List.mem_append, List.mem_singleton] at hother
    rcases hother with rfl | hother | rfl
    · exact hfirst first (.head _)
    · exact hfirst other (.tail _ hother)
    exact hrow

/-- `IncrementSubKey` keeps the lists exact. -/
theorem exact_incrementSubKey (hexact : db.Exact chained) (hsubKey : entity.subKey = true)
    (parentEntity : TxEntity) (subKeyHash : Hash160) (txHash : Hash256) (block : ℤ)
    (flags : BitVec 32) (newTx : Bool) :
    (db.incrementSubKey 0 parentEntity entity subKeyHash txHash block flags newTx).store.Exact chained := by
  unfold incrementSubKey
  dsimp only
  split
  · next index stat hfind hget =>
    obtain ⟨found, hfound, hentity, hstat⟩ := exists_of_findEntity hfind
    have hsame : found = stat := by
      rw [statOf_eq, hstat] at hget
      exact Option.some.inj hget
    subst hsame
    obtain ⟨hgeneration, -⟩ := hexact.subscribed found (List.mem_of_getElem? hfound)
    rw [hgeneration]
    split
    · generalize hrow : ({ TxEntityRow.zero entity 0 with
        txId := txHash
        lastSubKeyPos := (db.countSubKey 0 entity 0).1 + 1
        tempPos := (db.countSubKey 0 entity 0).1 + 1
        block := block
        flags := flags.toNat } : TxEntityRow) = row
      have hadded : ((db.countSubKey 0 entity 0).2.addRow 0 row).Exact chained := by
        subst hrow
        exact hexact.addSubKeyRow hsubKey rfl rfl rfl rfl rfl
      have himport : ((db.countSubKey 0 entity 0).2.addRow 0 row).imports 0 = db.imports 0 := by
        have hcounted : (db.countSubKey 0 entity 0).2.imports = db.imports := by
          unfold countSubKey
          dsimp only
          split <;> rfl
        exact congrFun hcounted 0
      split
      · refine @Exact.addCounted _ _ parentEntity hadded _ _ _ ?_ ?_ hentity rfl rfl rfl
        · rw [himport]
          exact hfind
        rw [statOf, himport]
        exact hstat
      · exact hadded
    · exact hexact
  exact hexact

theorem exact_addEntity (hexact : db.Exact chained) (hsubKey : entity.subKey = false) (flags : BitVec 32) :
    (db.addEntity 0 entity flags).store.Exact chained := by
  unfold addEntity
  dsimp only
  split
  · exact hexact
  next hfind =>
  have hnew : db.statOf entity = none := by
    rw [← statOf_eq, hfind]
    rfl
  have hunsubscribed : ∀ stat ∈ (db.imports 0).entities, stat.entity ≠ entity := by
    intro stat hstat hsame
    have hnone := List.find?_eq_none.mp hnew stat hstat
    exact hnone (decide_eq_true hsame)
  generalize hafter : Outcome.store (.ok { db.setImport 0 { db.imports 0 with
    entities := (db.imports 0).entities ++ [⟨entity, flags, 0, 0, 0⟩] } with
      rows := db.rows.commit
      defs := db.defs.commit }) = after
  have himport : after.imports 0 = { db.imports 0 with
      entities := (db.imports 0).entities ++ [⟨entity, flags, 0, 0, 0⟩] } := by
    rw [← hafter]
    exact @imports_setImport_self db _
  have hpool : after.memPools 0 = db.memPools 0 := by rw [← hafter]; rfl
  have hrows : after.rows = db.rows := by
    rw [← hafter]
    exact Batched.commit_of_settled hexact.settled
  constructor
  case settled => rw [hrows]; exact hexact.settled
  case chainImport => rw [himport]; exact hexact.chainImport
  case subscribed =>
    rw [himport]
    intro stat hstat
    rcases List.mem_append.mp hstat with hstat | hstat
    · exact hexact.subscribed stat hstat
    rw [List.mem_singleton.mp hstat]
    exact ⟨rfl, hsubKey⟩
  case nodup =>
    rw [himport, List.map_append, List.nodup_append]
    refine ⟨hexact.nodup, List.nodup_singleton _, ?_⟩
    intro first hfirst second hsecond
    obtain ⟨stat, hstat, rfl⟩ := List.mem_map.mp hfirst
    rw [List.mem_singleton.mp hsecond]
    exact hunsubscribed stat hstat
  case keys => rw [hpool]; exact hexact.keys
  case chunked => rw [hpool]; exact hexact.chunked
  case lists =>
    intro other
    obtain ⟨confirmed, size, hstate⟩ := hexact.lists other
    refine ⟨confirmed, size, ?_⟩
    unfold ListExact at hstate ⊢
    have hstat : after.statOf other =
        (db.statOf other).or (if entity = other then some ⟨entity, flags, 0, 0, 0⟩ else none) := by
      rw [statOf, statOf, himport]
      simp
    rw [hpool, hrows, himport, hstat]
    by_cases hother : entity = other
    · subst hother
      refine { hstate with plain := fun hplain => ?_ }
      have hsize := hstate.plain hplain
      rw [hnew] at hsize ⊢
      rw [if_pos rfl]
      exact hsize
    rw [if_neg hother, Option.or_none]
    exact hstate

theorem exact_beforeCommit (hexact : db.Exact chained) : (db.beforeCommit 0).Exact chained := by
  unfold beforeCommit
  rw [if_neg (not_not.mpr hexact.chainImport)]
  generalize hafter : (db.setImport 0 { db.imports 0 with
    entities := (db.imports 0).entities.map fun stat =>
      if stat.entity.timeReceived then stat
      else { stat with lastPos := stat.lastClearedPos } }).setMemPool 0
        ((db.memPools 0).filter fun row => row.entity.timeReceived) = after
  have himport : after.imports 0 = { db.imports 0 with
      entities := (db.imports 0).entities.map fun stat =>
        if stat.entity.timeReceived then stat
        else { stat with lastPos := stat.lastClearedPos } } := by
    rw [← hafter]
    exact @imports_setImport_self db _
  have hpool : after.memPools 0 = (db.memPools 0).filter fun row => row.entity.timeReceived := by
    rw [← hafter]
    exact memPools_setMemPool_self _
  have hrows : after.rows = db.rows := by rw [← hafter]; rfl
  have hkept : ∀ stat : TxEntityStat, (if stat.entity.timeReceived then stat
      else { stat with lastPos := stat.lastClearedPos }).entity = stat.entity := by
    intro stat
    split <;> rfl
  constructor
  case settled => rw [hrows]; exact hexact.settled
  case chainImport => rw [himport]; exact hexact.chainImport
  case subscribed =>
    rw [himport]
    intro stat hstat
    obtain ⟨old, hold, rfl⟩ := List.mem_map.mp hstat
    obtain ⟨hgeneration, hsubKey⟩ := hexact.subscribed old hold
    split
    · exact ⟨hgeneration, hsubKey⟩
    · exact ⟨hgeneration, hsubKey⟩
  case nodup =>
    rw [himport, List.map_map]
    have hentities : (fun stat : TxEntityStat => stat.entity) ∘ (fun stat : TxEntityStat =>
        if stat.entity.timeReceived then stat else { stat with lastPos := stat.lastClearedPos }) =
          fun stat => stat.entity := funext hkept
    rw [hentities]
    exact hexact.nodup
  case keys =>
    rw [hpool]
    exact fun row hrow => hexact.keys row (List.mem_filter.mp hrow).1
  case chunked =>
    rw [hpool]
    exact hexact.chunked.filter TxEntity.timeReceived
  case lists =>
    intro entity
    obtain ⟨confirmed, size, hstate⟩ := hexact.lists entity
    have hpoolRows := @rowsOf_filter (db.memPools 0) entity TxEntity.timeReceived
    have hstat : after.statOf entity = (db.statOf entity).map fun stat =>
        if stat.entity.timeReceived then stat else { stat with lastPos := stat.lastClearedPos } := by
      rw [statOf, himport, List.find?_map]
      refine congrArg (Option.map _) (congrArg₂ _ (funext fun stat => ?_) rfl)
      rw [Function.comp_apply, hkept]
    have hfound : ∀ stat, db.statOf entity = some stat → stat.entity = entity := fun stat hstat =>
      entity_of_statOf hstat
    unfold ListExact at hstate ⊢
    rw [hrows, hpool, himport, hstat]
    cases htime : entity.timeReceived with
    | true =>
      refine ⟨confirmed, size, hstate.congr (fun _ => rfl) (fun _ => Int.le_refl _) (fun _ => ?_) ?_⟩
      · cases hold : db.statOf entity with
        | none => rfl
        | some stat =>
          rw [Option.map_some, if_pos (by rw [hfound stat hold]; exact htime)]
      · rw [hpoolRows, if_pos htime]
    | false =>
      have hnone : rowsOf ((db.memPools 0).filter fun row => row.entity.timeReceived) entity = [] := by
        rw [hpoolRows, if_neg (by rw [htime]; decide)]
      refine ⟨confirmed, confirmed, { hstate with
        numbered := ?_, plain := fun hsubKey => ?_, opened := fun _ => .inl hnone }⟩
      · rw [waiting, hnone]
        rfl
      have hsize := hstate.plain hsubKey
      cases hold : db.statOf entity with
      | none =>
        rw [hold] at hsize
        obtain ⟨-, hconfirmed⟩ := Prod.mk.inj hsize
        rw [← hconfirmed]
        rfl
      | some stat =>
        rw [hold] at hsize
        obtain ⟨-, hconfirmed⟩ := Prod.mk.inj hsize
        rw [Option.map_some, if_neg (by rw [hfound stat hold, htime]; decide), ← hconfirmed]
        rfl

end TxDB

end Amberchain.Wallet
