import Amberchain.Base.LinkedLog
import Amberchain.Entity.Runs
import Mathlib.Data.BitVec

/-!
# The index of the entity ledger

The key rows of the database are an index of the live ledger: each key leads to
the entity that has it and to the last object of its chain.  Only tracked keys
are considered, so that the supply of assets does not depend on names.
-/

namespace Amberchain.Entity

open LinkedLog

def ledgerView (params : ChainParams) : View Placed EntityKey where
  pos := Placed.pos
  first := fun entry => entry.row.firstPos
  keys := fun entry => entry.row.keys params

def Placed.dbRow (entry : Placed) (chainPos : ℤ) : EntityDBRow :=
  ⟨entry.row.block, entry.pos, chainPos, entry.row.entityType⟩

def indexRow (params : ChainParams) (log : Log) (key : EntityKey) : Option EntityDBRow :=
  (locate (ledgerView params) log key).map fun found => found.1.dbRow found.2

/-- A ledger row that may stand in front of the log.  A follow-on refers to an
entity of the log and to the last object of its chain, and carries no key of any
other entity.  When it is written, a row is the last of its chain. -/
structure Links (params : ChainParams) (tracked : EntityKey → Prop) (entry : Placed)
    (older : Log) : Prop where
  joins : Joins (ledgerView params) tracked entry older
  kind : (entry.row.key.type = .txid ∧ entry.row.firstPos = entry.pos) ∨
    (entry.row.key.type = .followOnTxid ∧
      ∃ start ∈ older, start.row.key.type = .txid ∧ start.pos = entry.row.firstPos ∧
        entry.row.lastPos = head (ledgerView params) older start.pos)
  foreign : entry.row.key.type = .followOnTxid →
    ∀ key ∈ entry.row.otherKeys params, tracked key →
      ∀ before ∈ older, key ∈ before.row.keys params → before.pos = entry.row.firstPos
  chainPos : entry.row.chainPos = entry.pos

/-- Every row may stand in front of the older ones. -/
inductive Ordered (params : ChainParams) (tracked : EntityKey → Prop) : Log → Prop where
  | nil : Ordered params tracked []
  | cons {entry : Placed} {older : Log} (hlinks : Links params tracked entry older)
      (holder : Ordered params tracked older) : Ordered params tracked (entry :: older)

variable {params : ChainParams} {tracked : EntityKey → Prop} {log older live : Log}
  {entry start : Placed} {key : EntityKey}

theorem head_cons_of_firstPos {pos : ℤ} (hfirst : entry.row.firstPos = pos) :
    head (ledgerView params) (entry :: older) pos = entry.pos :=
  @head_cons_of_eq _ _ (ledgerView params) older entry pos hfirst

theorem head_cons_of_firstPos_ne {pos : ℤ} (hfirst : entry.row.firstPos ≠ pos) :
    head (ledgerView params) (entry :: older) pos = head (ledgerView params) older pos :=
  @head_cons_of_ne _ _ (ledgerView params) older entry pos hfirst

namespace Ordered

theorem wellFormed (hlog : Ordered params tracked log) :
    WellFormed (ledgerView params) tracked log := by
  induction hlog with
  | nil => exact .nil
  | cons hlinks holder ih => exact .cons hlinks.joins ih

theorem of_suffix (hlog : Ordered params tracked log) (hlive : live <:+ log) :
    Ordered params tracked live := by
  induction hlog with
  | nil =>
    rw [List.suffix_nil.mp hlive]
    exact .nil
  | cons hlinks holder ih =>
    rcases List.suffix_cons_iff.mp hlive with heq | hrest
    · rw [heq]
      exact .cons hlinks holder
    exact ih hrest

theorem kind (hlog : Ordered params tracked (entry :: older)) :
    (entry.row.key.type = .txid ∧ entry.row.firstPos = entry.pos) ∨
      (entry.row.key.type = .followOnTxid ∧
        ∃ start ∈ older, start.row.key.type = .txid ∧ start.pos = entry.row.firstPos ∧
          entry.row.lastPos = head (ledgerView params) older start.pos) := by
  cases hlog with
  | cons hlinks holder => exact hlinks.kind

section

variable (hlog : Ordered params tracked log) (hentry : entry ∈ log)

include hlog hentry

/-- An entity starts its own chain. -/
theorem firstPos_eq
    (htype : entry.row.key.type = .txid) : entry.row.firstPos = entry.pos := by
  induction hlog with
  | nil => cases hentry
  | cons hlinks holder ih =>
    rcases List.mem_cons.mp hentry with rfl | hmem
    · rcases hlinks.kind with ⟨_, hfirst⟩ | ⟨hfollow, _⟩
      · exact hfirst
      rw [htype] at hfollow
      cases hfollow
    exact ih hmem

theorem exists_start :
    ∃ start ∈ log, start.row.key.type = .txid ∧ start.pos = entry.row.firstPos := by
  induction hlog with
  | nil => cases hentry
  | cons hlinks holder ih =>
    rcases List.mem_cons.mp hentry with rfl | hmem
    · rcases hlinks.kind with ⟨htype, hfirst⟩ | ⟨_, start, hstart, htype, hpos, _⟩
      · exact ⟨_, (.head _), htype, hfirst.symm⟩
      · exact ⟨start, List.mem_cons_of_mem _ hstart, htype, hpos⟩
    obtain ⟨start, hstart, htype, hpos⟩ := ih hmem
    exact ⟨start, List.mem_cons_of_mem _ hstart, htype, hpos⟩

theorem chainPos_eq :
    entry.row.chainPos = entry.pos := by
  induction hlog with
  | nil => cases hentry
  | cons hlinks holder ih =>
    rcases List.mem_cons.mp hentry with rfl | hmem
    · exact hlinks.chainPos
    exact ih hmem

theorem indexRow_eq
    (htracked : tracked key) (hkey : key ∈ entry.row.keys params) : indexRow params log key =
      some (entry.dbRow (head (ledgerView params) log entry.pos)) := by
  unfold indexRow
  rw [hlog.wellFormed.locate_eq hentry htracked hkey]
  rfl

end

end Ordered

theorem indexRow_eq_none (hnone : ∀ entry ∈ log, key ∉ entry.row.keys params) :
    indexRow params log key = none := by
  unfold indexRow
  rw [@locate_eq_none _ _ _ (ledgerView params) _ _ hnone]
  rfl

def setKeys (rows : EntityKey → Option EntityDBRow) (keys : List EntityKey)
    (value : Option EntityDBRow) : EntityKey → Option EntityDBRow :=
  fun key => if key ∈ keys then value else rows key

theorem setKeys_cons (rows : EntityKey → Option EntityDBRow) (key : EntityKey)
    (keys : List EntityKey) (value : Option EntityDBRow) :
    setKeys (Function.update rows key value) keys value = setKeys rows (key :: keys) value := by
  funext other
  unfold setKeys
  by_cases hkeys : other ∈ keys
  · rw [if_pos hkeys, if_pos (.tail _ hkeys)]
  rw [if_neg hkeys]
  by_cases heq : other = key
  · rw [heq, Function.update_self, if_pos (.head _)]
  rw [Function.update_of_ne heq, if_neg (by simp [heq, hkeys])]

theorem rows_commit_row (keys : List EntityKey) (value : EntityDBRow) : ∀ db : EntityDB,
      (db.commit (keys.map fun key => .row key value)).rows = setKeys db.rows keys (some value) := by
  induction keys with
  | nil => exact fun db => by funext key; simp [setKeys]
  | cons key keys ih =>
    intro db
    rw [← setKeys_cons]
    exact ih (db.write (.row key value))

theorem rows_commit_delete (keys : List EntityKey) :
    ∀ db : EntityDB, (db.commit (keys.map .delete)).rows = setKeys db.rows keys none := by
  induction keys with
  | nil => exact fun db => by funext key; simp [setKeys]
  | cons key keys ih =>
    intro db
    rw [← setKeys_cons]
    exact ih (db.write (.delete key))

def Indexes (params : ChainParams) (tracked : EntityKey → Prop)
    (rows : EntityKey → Option EntityDBRow) (log : Log) : Prop :=
  ∀ key, tracked key → rows key = indexRow params log key

variable {rows : EntityKey → Option EntityDBRow}

/-- A new entity under all its keys. -/
theorem Indexes.insert_start (hrows : Indexes params tracked rows older)
    (holder : Ordered params tracked older) (hlinks : Links params tracked entry older)
    (htype : entry.row.key.type = .txid) {keys : List EntityKey}
    (hkeys : ∀ key, key ∈ keys ↔ key ∈ entry.row.keys params) :
    Indexes params tracked (setKeys rows keys (some (entry.dbRow entry.pos))) (entry :: older) := by
  intro key htracked
  have hfirst := (Ordered.cons hlinks holder).firstPos_eq (.head _) htype
  have hlocate := @Joins.locate_cons_start _ _ _ _ _ _ _ key hlinks.joins holder.wellFormed hfirst
  unfold setKeys indexRow
  rw [hlocate]
  by_cases hkey : key ∈ entry.row.keys params
  · have hview : key ∈ (ledgerView params).keys entry := hkey
    rw [if_pos ((hkeys key).mpr hkey), if_pos hview]
    rfl
  have hview : key ∉ (ledgerView params).keys entry := hkey
  rw [if_neg fun hmem => hkey ((hkeys key).mp hmem), if_neg hview]
  exact hrows key htracked

/-- A follow-on under its own key, and its asset moved on under all the asset's
keys. -/
theorem Indexes.insert_followOn (hrows : Indexes params tracked rows older)
    (holder : Ordered params tracked older) (hlinks : Links params tracked entry older)
    (htype : entry.row.key.type = .followOnTxid) (hstart : start ∈ older)
    (hpos : start.pos = entry.row.firstPos) : Indexes params tracked
      (setKeys (setKeys rows [entry.row.key] (some (entry.dbRow entry.pos)))
        (start.row.keys params) (some (start.dbRow entry.pos))) (entry :: older) := by
  intro key htracked
  have hlocate := hlinks.joins.locate_cons_joined holder.wellFormed hstart hpos htracked
  have hown : entry.row.keys params = [entry.row.key] := by
    unfold EntityRow.keys
    rw [htype]
    rfl
  unfold setKeys indexRow
  rw [hlocate]
  by_cases hkey : key ∈ entry.row.keys params
  · have hview : key ∈ (ledgerView params).keys entry := hkey
    have hnot : key ∉ start.row.keys params := hlinks.joins.fresh key hkey htracked start hstart
    rw [if_pos hview, if_neg hnot, if_pos (hown ▸ hkey)]
    rfl
  have hview : key ∉ (ledgerView params).keys entry := hkey
  rw [if_neg hview]
  by_cases hheld : key ∈ start.row.keys params
  · have hviewStart : key ∈ (ledgerView params).keys start := hheld
    rw [if_pos hheld, if_pos hviewStart]
    rfl
  have hviewStart : key ∉ (ledgerView params).keys start := hheld
  rw [if_neg hheld, if_neg hviewStart, if_neg (hown ▸ hkey)]
  exact hrows key htracked

theorem Indexes.remove_start (hrows : Indexes params tracked rows (entry :: older))
    (holder : Ordered params tracked older) (hlinks : Links params tracked entry older)
    (htype : entry.row.key.type = .txid) {keys : List EntityKey}
    (hkeys : ∀ key, key ∈ keys ↔ key ∈ entry.row.keys params) :
    Indexes params tracked (setKeys rows keys none) older := by
  intro key htracked
  have hfirst := (Ordered.cons hlinks holder).firstPos_eq (.head _) htype
  have hlocate := @Joins.locate_cons_start _ _ _ _ _ _ _ key hlinks.joins holder.wellFormed hfirst
  have hrow := hrows key htracked
  unfold setKeys
  by_cases hkey : key ∈ entry.row.keys params
  · rw [if_pos ((hkeys key).mpr hkey), indexRow_eq_none (hlinks.joins.fresh key hkey htracked)]
  have hview : key ∉ (ledgerView params).keys entry := hkey
  rw [if_neg fun hmem => hkey ((hkeys key).mp hmem), hrow]
  unfold indexRow
  rw [hlocate, if_neg hview]

/-- Deleting a follow-on's keys and moving its asset back leaves the index of the
older rows. -/
theorem Indexes.remove_followOn (hrows : Indexes params tracked rows (entry :: older))
    (holder : Ordered params tracked older) (hlinks : Links params tracked entry older)
    (htype : entry.row.key.type = .followOnTxid) (hstart : start ∈ older)
    (hpos : start.pos = entry.row.firstPos) : Indexes params tracked
      (setKeys (setKeys rows (entry.row.key :: entry.row.otherKeys params) none)
        (start.row.keys params)
        (some (start.dbRow (head (ledgerView params) older start.pos)))) older := by
  intro key htracked
  have hlocate := hlinks.joins.locate_cons_joined holder.wellFormed hstart hpos htracked
  have hown : entry.row.keys params = [entry.row.key] := by
    unfold EntityRow.keys
    rw [htype]
    rfl
  unfold setKeys
  by_cases hheld : key ∈ start.row.keys params
  · rw [if_pos hheld, holder.indexRow_eq hstart htracked hheld]
  rw [if_neg hheld]
  by_cases hkey : key ∈ entry.row.key :: entry.row.otherKeys params
  · rw [if_pos hkey, indexRow_eq_none]
    intro before hbefore hmem
    rcases List.mem_cons.mp hkey with heq | hother
    · exact hlinks.joins.fresh key (by
        show key ∈ entry.row.keys params
        rw [hown, heq]
        exact .head _) htracked before hbefore hmem
    -- the follow-on carries keys of its own asset only
    have hfirst := hlinks.foreign htype key hother htracked before hbefore hmem
    have hsame : before = start :=
      holder.wellFormed.eq_of_pos hbefore hstart (hfirst.trans hpos.symm)
    exact hheld (hsame ▸ hmem)
  have hview : key ∉ (ledgerView params).keys entry := by
    show key ∉ entry.row.keys params
    rw [hown]
    intro hmem
    exact hkey (List.mem_cons.mpr (.inl (List.mem_singleton.mp hmem)))
  have hviewStart : key ∉ (ledgerView params).keys start := hheld
  rw [if_neg hkey, hrows key htracked]
  unfold indexRow
  rw [hlocate, if_neg hview, if_neg hviewStart]

end Amberchain.Entity
