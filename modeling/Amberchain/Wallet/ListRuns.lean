import Amberchain.Wallet.CommitLists
import Amberchain.Wallet.HeightRuns
import Amberchain.Wallet.Lookups
import Amberchain.Wallet.RollBackExact

/-!
# Runs of the list store

In every run the positions of a list have no gaps, and `GetList` of an entity returns the
rows that it is asked for.  `GetList` of a generation does so unless the window starts
before the list and ends inside it.
-/

namespace Amberchain.Wallet

/-- Sub-key lists are the ones that are counted, and no entity with such a list subscribes. -/
def StoreCall.Kinds : StoreCall → Prop
  | .incrementSubKey _ entity _ _ _ _ _ => entity.subKey = true
  | .addEntity entity _ => entity.subKey = false
  | _ => True

namespace TxDB

def rollBackCounted (db : TxDB) (subKeys : List (TxEntity × TxEntity)) (block : ℤ) : Outcome := do
  let counted ← db.countDown subKeys
  counted.rollBack 0 block

/-- The runs of the chain import; in a chained one each commit confirms rows of the next
block, and each roll back counts down the sub-keys above its block. -/
inductive ListRun (chained : Prop) : TxDB → Prop
  | initial : ListRun chained TxDB.initial
  | called {db : TxDB} (hrun : ListRun chained db) (storeCall : StoreCall) (hkinds : storeCall.Kinds) :
      ListRun chained (storeCall.run db).store
  | flagged {db : TxDB} (hrun : ListRun chained db) (hash : Hash256) (flag : BitVec 32)
      (setFlag : Bool) : ListRun chained (db.saveTxFlag hash flag setFlag).store
  | cleared {db : TxDB} (hrun : ListRun chained db) : ListRun chained (db.beforeCommit 0)
  | committed {db : TxDB} (hrun : ListRun chained db) (hnext : chained → db.NextBlock) :
      ListRun chained (db.commit 0).store
  | rolledBack {db : TxDB} (hrun : ListRun chained db) (subKeys : List (TxEntity × TxEntity))
      (block : ℤ) (hdown : db.CountsDown chained subKeys block) :
      ListRun chained (db.rollBackCounted subKeys block).store

variable {chained : Prop} {db : TxDB}

theorem exact_initial : TxDB.initial.Exact chained where
  settled := fun _ => rfl
  chainImport := rfl
  subscribed := fun _ hstat => nomatch hstat
  nodup := List.nodup_nil
  keys := fun _ hrow => nomatch hrow
  chunked := .nil
  lists := by
    intro entity
    refine ⟨0, 0, ?_⟩
    constructor
    case nonneg => exact Int.le_refl 0
    case stored =>
      intro pos
      refine iff_of_false (fun hrow => hrow rfl) fun hpos => ?_
      omega
    case ordered => exact fun _ _ _ _ _ _ hvalue => nomatch hvalue
    case below => exact fun _ _ _ _ hvalue => nomatch hvalue
    case numbered => rfl
    case plain => exact fun _ => rfl
    case counted => exact fun _ => rfl
    case opened => exact fun _ => .inl rfl

theorem exact_run (hexact : db.Exact chained) {storeCall : StoreCall} (hkinds : storeCall.Kinds) :
    (storeCall.run db).store.Exact chained := by
  cases storeCall with
  | addTx tx entities => exact exact_addTx hexact tx entities
  | addSubKeyDef hash subKeySize flags timeReceived =>
    exact exact_addSubKeyDef hexact hash subKeySize flags timeReceived
  | incrementSubKey parentEntity entity subKeyHash txHash block flags newTx =>
    exact exact_incrementSubKey hexact hkinds parentEntity subKeyHash txHash block flags newTx
  | addEntity entity flags => exact exact_addEntity hexact hkinds flags

theorem ListRun.exact (hrun : ListRun chained db) : db.Exact chained := by
  induction hrun with
  | initial => exact exact_initial
  | called _ storeCall hkinds ih => exact exact_run ih hkinds
  | flagged _ hash flag setFlag ih => exact exact_saveTxFlag ih hash flag setFlag
  | cleared _ ih => exact exact_beforeCommit ih
  | committed _ hnext ih =>
    obtain ⟨after, hcommit, hexact, -⟩ := exact_commit ih hnext
    rw [hcommit]
    exact hexact
  | @rolledBack db _ subKeys block hdown ih =>
    obtain ⟨counted, after, hcounted, hrollBack, hexact⟩ := exact_rollBack ih hdown
    have hrolled : db.rollBackCounted subKeys block = .ok after := by
      rw [rollBackCounted, hcounted]
      exact hrollBack
    rw [hrolled]
    exact hexact

section Windows

variable {entity : TxEntity} {confirmed size : ℤ}

theorem ListExact.window_eq_nil_iff (hexact : db.Exact chained)
    (hstate : db.ListExact chained entity confirmed size) {first last : ℤ} (hfirst : 1 ≤ first)
    (hlast : last ≤ size) : window (db.listOf entity) first last = [] ↔ last < first := by
  refine ⟨fun hnil => ?_, fun hempty => window_eq_nil fun row _ => by omega⟩
  by_contra hmeets
  have hpos : first ∈ (db.listOf entity).map fun row => row.pos := by
    rw [hstate.map_pos_listOf hexact, mem_positions]
    omega
  obtain ⟨row, hrow, hplace⟩ := List.mem_map.mp hpos
  have hmem : row ∈ window (db.listOf entity) first last :=
    List.mem_filter.mpr ⟨hrow, by rw [decide_eq_true_eq]; omega⟩
  rw [hnil] at hmem
  cases hmem

/-- `GetList` of an entity is exact, but finds nothing in a sub-key list. -/
theorem ListExact.getList_iff (hexact : db.Exact chained)
    (hstate : db.ListExact chained entity confirmed size) (start count : ℤ) :
    db.getList 0 entity start count = .ok (db.requested entity start count) ↔
      entity.subKey = false ∨ min (windowFirst size start count + count - 1) size <
        max (windowFirst size start count) 1 := by
  cases hsubKey : entity.subKey with
  | false => exact iff_of_true (hstate.getList_eq hexact hsubKey start count) (.inl rfl)
  | true =>
    have hnone : db.statOf entity = none := by
      by_contra hstat
      obtain ⟨stat, hfound⟩ := Option.ne_none_iff_exists'.mp hstat
      have hplain := (hexact.subscribed stat (mem_of_statOf hfound)).2
      rw [entity_of_statOf hfound, hsubKey] at hplain
      cases hplain
    rw [getList, statOf_eq, hnone, hstate.requested_eq hexact, Except.ok.injEq, eq_comm,
      hstate.window_eq_nil_iff hexact (by omega) (by omega)]
    exact ⟨.inr, fun hempty => hempty.resolve_left Bool.noConfusion⟩

/-- `GetList` of a generation is exact unless the window starts before the list and ends
inside it. -/
theorem ListExact.getGenerationList_iff (hexact : db.Exact chained)
    (hstate : db.ListExact chained entity confirmed size) (start count : ℤ) :
    db.getGenerationList 0 entity 0 start count = .ok (db.requested entity start count) ↔
      0 < windowFirst size start count ∨ windowFirst size start count + count - 1 < 1
        ∨ size ≤ windowFirst size start count + count - 1 := by
  rw [hstate.getGenerationList_eq hexact, hstate.requested_eq hexact, Except.ok.injEq]
  generalize windowFirst size start count = first
  by_cases hclipped : first ≤ 0 ∧ 1 ≤ first + count - 1
  · have hfirst : max first 1 = 1 := by omega
    rw [if_pos hclipped, hfirst]
    constructor
    · intro hsame
      by_contra hinside
      have hpos : first + count ∈ (db.listOf entity).map fun row => row.pos := by
        rw [hstate.map_pos_listOf hexact, mem_positions]
        omega
      obtain ⟨row, hrow, hplace⟩ := List.mem_map.mp hpos
      have hmem : row ∈ window (db.listOf entity) 1 (min count size) :=
        List.mem_filter.mpr ⟨hrow, by rw [decide_eq_true_eq]; omega⟩
      rw [hsame] at hmem
      have hbounds := of_decide_eq_true (List.mem_filter.mp hmem).2
      omega
    intro hwhole
    have hlast : min count size = min (first + count - 1) size := by omega
    rw [hlast]
  rw [if_neg hclipped]
  exact iff_of_true rfl (by omega)

end Windows

def receivedFive : TxDB :=
  [10, 11, 12, 13, 14].foldl
    (fun db hash => db.addTx 0 ⟨hash, 200, 200, -1, -1, 0, 0, 0, 0, 0⟩ [⟨5, 0x00000103⟩])
    (TxDB.initial.addEntity 0 ⟨5, 0x00000103⟩ 0).store

theorem listRun_receivedFive : ListRun chained receivedFive := by
  have hsubscribed : ListRun chained (TxDB.initial.addEntity 0 ⟨5, 0x00000103⟩ 0).store :=
    .called .initial (.addEntity ⟨5, 0x00000103⟩ 0)
      (show (TxEntity.mk 5 0x00000103).subKey = false by decide)
  have hreceived : ∀ (hashes : List Hash256) {db : TxDB}, ListRun chained db →
      ListRun chained (hashes.foldl (fun db hash =>
        db.addTx 0 ⟨hash, 200, 200, -1, -1, 0, 0, 0, 0, 0⟩ [⟨5, 0x00000103⟩]) db) := by
    intro hashes
    induction hashes with
    | nil => exact fun hrun => hrun
    | cons hash hashes ih =>
      exact fun hrun => ih (.called hrun (.addTx ⟨hash, 200, 200, -1, -1, 0, 0, 0, 0, 0⟩ _) trivial)
  exact hreceived _ hsubscribed

end TxDB

end Amberchain.Wallet
