import Amberchain.Entity.Backed
import Amberchain.Entity.Index

/-!
# Chains of issues in the ledger

The objects of an asset hang together by their last positions, from the newest
down to the genesis.  Walking down adds up what the log holds of the asset, and
the log as a list of issues is the confirmed part of the register.
-/

namespace Amberchain.Entity

open LinkedLog

variable {params : ChainParams} {tracked : EntityKey → Prop} {log older live : Log}
  {entry start : Placed} {ledger : EntityLedger}

/-- From a position the chain leads to its first object. -/
inductive LeadsTo (ledger : EntityLedger) (firstPos : ℤ) : ℤ → Prop where
  | first : LeadsTo ledger firstPos firstPos
  | back {pos : ℤ} (hlast : 0 < (ledger.getRow pos).lastPos)
      (hnext : LeadsTo ledger firstPos (ledger.getRow pos).lastPos) :
      LeadsTo ledger firstPos pos

def chainSupply (log : Log) (firstPos : ℤ) : ℕ :=
  ((log.filter fun entry => entry.row.firstPos = firstPos).map
    fun entry => entry.row.quantity.toNat).sum

theorem chainSupply_cons_of_eq {firstPos : ℤ} (hfirst : entry.row.firstPos = firstPos) :
    chainSupply (entry :: older) firstPos =
      entry.row.quantity.toNat + chainSupply older firstPos := by
  unfold chainSupply
  rw [List.filter_cons_of_pos (by simpa using hfirst), List.map_cons, List.sum_cons]

theorem chainSupply_cons_of_ne {firstPos : ℤ} (hfirst : entry.row.firstPos ≠ firstPos) :
    chainSupply (entry :: older) firstPos = chainSupply older firstPos := by
  unfold chainSupply
  rw [List.filter_cons_of_neg (by simpa using hfirst)]

theorem chainSupply_eq_zero {firstPos : ℤ}
    (hnone : ∀ entry ∈ log, entry.row.firstPos ≠ firstPos) : chainSupply log firstPos = 0 := by
  unfold chainSupply
  rw [List.filter_eq_nil_iff.mpr fun entry hentry => by simpa using hnone entry hentry]
  rfl

theorem Ordered.exists_head (hlog : Ordered params tracked log) (hstart : start ∈ log)
    (htype : start.row.key.type = .txid) :
    ∃ entry ∈ log, entry.pos = head (ledgerView params) log start.pos ∧
      entry.row.firstPos = start.pos := by
  have hfirst := hlog.firstPos_eq hstart htype
  unfold LinkedLog.head
  cases hfound : log.find? fun entry => (ledgerView params).first entry = start.pos with
  | none =>
    have hnone := List.find?_eq_none.mp hfound start hstart
    exact absurd (decide_eq_true hfirst) hnone
  | some entry =>
    have hhead : (ledgerView params).first entry = start.pos := by
      simpa using List.find?_some hfound
    exact ⟨entry, List.mem_of_find?_eq_some hfound, rfl, hhead⟩

theorem Ordered.exists_chainPos (hlog : Ordered params tracked log) (hentry : entry ∈ log) :
    ∃ newest ∈ log, newest.pos = head (ledgerView params) log entry.pos ∧
      newest.row.firstPos = entry.row.firstPos := by
  cases hfound : log.find? fun other => (ledgerView params).first other = entry.pos with
  | none =>
    refine ⟨entry, hentry, ?_, rfl⟩
    unfold LinkedLog.head
    rw [hfound]
    rfl
  | some newest =>
    have hmem := List.mem_of_find?_eq_some hfound
    have hview : (ledgerView params).first newest = entry.pos := by
      simpa using List.find?_some hfound
    have hfirst : newest.row.firstPos = entry.pos := hview
    obtain ⟨start, hstart, htype, hpos⟩ := hlog.exists_start hmem
    have hsame : start = entry := hlog.wellFormed.eq_of_pos hstart hentry (hpos.trans hfirst)
    refine ⟨newest, hmem, ?_, ?_⟩
    · unfold LinkedLog.head
      rw [hfound]
      rfl
    rw [hfirst, ← hsame, hlog.firstPos_eq hstart htype]

/-- One object of the chain: the newest one is its genesis, or leads to the newest
one of the older rows. -/
theorem Ordered.head_cases (hlog : Ordered params tracked (entry :: older))
    (hstart : start ∈ entry :: older) (htype : start.row.key.type = .txid) :
    (entry.row.firstPos = start.pos ∧ entry = start ∧ ∀ row ∈ older, row.row.firstPos ≠ start.pos) ∨
      (entry.row.firstPos = start.pos ∧ entry.pos ≠ start.pos ∧ start ∈ older ∧
        entry.row.lastPos = head (ledgerView params) older start.pos) ∨
      (entry.row.firstPos ≠ start.pos ∧ start ∈ older) := by
  cases hlog with
  | cons hlinks holder =>
    by_cases hsame : entry = start
    · refine .inl ⟨?_, hsame, fun row hrow heq => ?_⟩
      · rw [← hsame]
        exact (Ordered.cons hlinks holder).firstPos_eq (.head _) (hsame ▸ htype)
      have hle : row.row.firstPos ≤ row.pos := holder.wellFormed.first_le hrow
      have hlt : row.pos < entry.pos := hlinks.joins.below row hrow
      rw [← hsame] at heq
      omega
    have hmem : start ∈ older := by
      rcases List.mem_cons.mp hstart with heq | hmem
      · exact absurd heq.symm hsame
      · exact hmem
    have hlt : start.pos < entry.pos := hlinks.joins.below start hmem
    by_cases hfirst : entry.row.firstPos = start.pos
    · refine .inr (.inl ⟨hfirst, Int.ne_of_gt hlt, hmem, ?_⟩)
      rcases hlinks.kind with ⟨_, hself⟩ | ⟨_, other, -, _, hpos, hlast⟩
      · omega
      · rw [hlast, hpos, hfirst]
    exact .inr (.inr ⟨hfirst, hmem⟩)

/-- The walk from the newest object ends at the genesis. -/
theorem Ordered.leadsTo (hchained : Chained ledger log) (hlog : Ordered params tracked log)
    (hstart : start ∈ log) (htype : start.row.key.type = .txid) :
    LeadsTo ledger start.pos (head (ledgerView params) log start.pos) := by
  induction log with
  | nil => cases hstart
  | cons entry older ih =>
    have hrow := hchained.getRow_eq (.head _)
    have hrest : Chained ledger older := hchained.of_suffix (List.suffix_cons entry older)
    have holder : Ordered params tracked older := hlog.of_suffix (List.suffix_cons entry older)
    rcases hlog.head_cases hstart htype with
      ⟨hfirst, hsame, _⟩ | ⟨hfirst, _, hmem, hlast⟩ | ⟨hfirst, hmem⟩
    · rw [head_cons_of_eq hfirst, hsame]
      exact .first
    · rw [head_cons_of_eq hfirst]
      obtain ⟨newest, hnewest, hpos, _⟩ := holder.exists_head hmem htype
      have hlow := hrest.pos_pos hnewest
      refine .back ?_ ?_
      · show 0 < (ledger.getRow entry.pos).lastPos
        rw [hrow]
        omega
      show LeadsTo ledger start.pos (ledger.getRow entry.pos).lastPos
      rw [hrow, hlast]
      exact ih hrest holder hmem
    rw [head_cons_of_ne hfirst]
    exact ih hrest holder hmem

/-- The ledger loop of `GetTotalQuantity` adds what the log holds of the asset. -/
theorem Ordered.chainQuantity_eq {assets : AssetDB} (hchained : Chained assets.ledger log)
    (hlog : Ordered params tracked log) (hstart : start ∈ log)
    (htype : start.row.key.type = .txid) :
    ∀ fuel total, (head (ledgerView params) log start.pos).toNat < fuel →
      assets.chainQuantity start.pos fuel (head (ledgerView params) log start.pos) total =
        total + BitVec.ofNat 64 (chainSupply log start.pos) := by
  induction log with
  | nil => cases hstart
  | cons entry older ih =>
    intro fuel total hfuel
    have hrow := hchained.getRow_eq (.head _)
    have hrest : Chained assets.ledger older := hchained.of_suffix (List.suffix_cons entry older)
    have holder : Ordered params tracked older := hlog.of_suffix (List.suffix_cons entry older)
    cases fuel with
    | zero => exact absurd hfuel (Nat.not_lt_zero _)
    | succ fuel =>
      rcases hlog.head_cases hstart htype with
        ⟨hfirst, hsame, hnone⟩ | ⟨hfirst, hne, hmem, hlast⟩ | ⟨hfirst, hmem⟩
      · rw [head_cons_of_eq hfirst, chainSupply_cons_of_eq hfirst, chainSupply_eq_zero hnone]
        show assets.chainQuantity start.pos (fuel + 1) entry.pos total = _
        unfold AssetDB.chainQuantity
        simp only [hrow]
        rw [if_pos (congrArg Placed.pos hsame), Nat.add_zero, BitVec.ofNat_toNat,
          BitVec.setWidth_eq]
      · rw [head_cons_of_eq hfirst] at hfuel ⊢
        rw [chainSupply_cons_of_eq hfirst]
        obtain ⟨newest, hnewest, hpos, _⟩ := holder.exists_head hmem htype
        have hlow := hrest.pos_pos hnewest
        have hlt := hchained.pos_lt hnewest
        have hless : (head (ledgerView params) older start.pos).toNat < fuel := by
          have hbound : entry.pos.toNat < fuel + 1 := hfuel
          omega
        show assets.chainQuantity start.pos (fuel + 1) entry.pos total = _
        unfold AssetDB.chainQuantity
        simp only [hrow]
        rw [if_neg hne, hlast, if_neg (by rw [← hpos]; omega), ih hrest holder hmem fuel _ hless,
          BitVec.ofNat_add, BitVec.ofNat_toNat, BitVec.setWidth_eq, BitVec.add_assoc]
      rw [head_cons_of_ne hfirst] at hfuel ⊢
      rw [chainSupply_cons_of_ne hfirst]
      exact ih hrest holder hmem (fuel + 1) total hfuel

def txidAt (log : Log) (pos : ℤ) : Hash256 :=
  ((log.find? fun entry => entry.pos = pos).map fun entry => entry.row.key.key).getD 0

/-- The issues of a log: the original of each is where its chain starts. -/
def acceptedLog (log : Log) : List Accepted :=
  log.map fun entry => entry.row.accepted (txidAt log entry.row.firstPos)

theorem Ordered.txidAt_eq (hlog : Ordered params tracked log) (hstart : start ∈ log) :
    txidAt log start.pos = start.row.key.key := by
  unfold txidAt
  cases hfound : log.find? fun entry => entry.pos = start.pos with
  | none =>
    have hnone := List.find?_eq_none.mp hfound start hstart
    exact absurd (decide_eq_true rfl) hnone
  | some entry =>
    have hpos : entry.pos = start.pos := by simpa using List.find?_some hfound
    rw [hlog.wellFormed.eq_of_pos (List.mem_of_find?_eq_some hfound) hstart hpos]
    rfl

theorem txidAt_cons_of_ne {pos : ℤ} (hpos : entry.pos ≠ pos) :
    txidAt (entry :: older) pos = txidAt older pos := by
  unfold txidAt
  rw [List.find?_cons_of_neg (by simpa using hpos)]

theorem Ordered.acceptedLog_cons (hlog : Ordered params tracked (entry :: older)) :
    acceptedLog (entry :: older) =
      entry.row.accepted (txidAt (entry :: older) entry.row.firstPos) :: acceptedLog older := by
  have holder : Ordered params tracked older := hlog.of_suffix (List.suffix_cons entry older)
  refine congrArg (List.cons _) (List.map_congr_left fun before hbefore => ?_)
  rw [txidAt_cons_of_ne]
  have hle : before.row.firstPos ≤ before.pos := holder.wellFormed.first_le hbefore
  cases hlog with
  | cons hlinks _ =>
    have hlt : before.pos < entry.pos := hlinks.joins.below before hbefore
    omega

/-- What a log cut at a block keeps of its issues. -/
theorem Ordered.acceptedLog_upTo (hlog : Ordered params tracked log)
    (hchained : Chained ledger log) (block : ℤ) : acceptedLog (log.upTo block) =
      (acceptedLog log).filter fun issue => issue.block ≤ block := by
  induction log with
  | nil => rfl
  | cons entry older ih =>
    have holder : Ordered params tracked older := hlog.of_suffix (List.suffix_cons entry older)
    have hrest : Chained ledger older := hchained.of_suffix (List.suffix_cons entry older)
    rw [hlog.acceptedLog_cons]
    by_cases hnew : block < entry.row.block
    · rw [Log.upTo_cons_of_lt hnew, ih holder hrest, List.filter_cons_of_neg]
      exact fun hle => absurd (of_decide_eq_true hle) (Int.not_le.mpr hnew)
    have hold : entry.row.block ≤ block := Int.not_lt.mp hnew
    rw [Log.upTo_cons_of_le hold, hlog.acceptedLog_cons, List.filter_cons_of_pos (by
      exact decide_eq_true hold)]
    refine congrArg (List.cons _) ?_
    rw [← ih holder hrest]
    cases holder with
    | nil => rfl
    | @cons newest rest hlinks hrestOrdered =>
      have hle : newest.row.block ≤ entry.row.block := by
        cases hchained with
        | cons _ _ _ hblock _ => exact hblock newest (.head _)
      rw [Log.upTo_cons_of_le (Int.le_trans hle hold)]

section

variable (hlog : Ordered params tracked log)
  (htracked : ∀ key : EntityKey, key.type = .txid → tracked key) (hstart : start ∈ log)

include hlog htracked hstart

theorem Ordered.eq_of_txid {other : Placed} (hother : other ∈ log) (htype : start.row.key.type = .txid)
    (hotherType : other.row.key.type = .txid) (htxid : other.row.key.key = start.row.key.key) :
    other = start := by
  have hkey : other.row.key = start.row.key := by
    rw [show other.row.key = ⟨other.row.key.key, other.row.key.type⟩ from rfl, htxid, hotherType,
      ← htype]
  refine hlog.wellFormed.eq_of_key hother hstart (htracked start.row.key htype) ?_ ?_
  · show start.row.key ∈ other.row.keys params
    unfold EntityRow.keys
    rw [hotherType, hkey]
    exact .head _
  show start.row.key ∈ start.row.keys params
  unfold EntityRow.keys
  rw [htype]
  exact .head _

/-- The issues of an asset are the objects of its chain. -/
theorem Ordered.original_iff (htype : start.row.key.type = .txid) (hentry : entry ∈ log) :
    txidAt log entry.row.firstPos = start.row.key.key ↔ entry.row.firstPos = start.pos := by
  obtain ⟨first, hfirst, hfirstType, hpos⟩ := hlog.exists_start hentry
  rw [← hpos, hlog.txidAt_eq hfirst]
  constructor
  · intro htxid
    rw [hlog.eq_of_txid htracked hstart hfirst htype hfirstType htxid]
  intro heq
  rw [hlog.wellFormed.eq_of_pos hfirst hstart heq]

theorem Ordered.supply_eq (htype : start.row.key.type = .txid) :
    (((acceptedLog log).filter fun issue => issue.original = start.row.key.key).map
        fun issue => issue.quantity.toNat).sum = chainSupply log start.pos := by
  unfold chainSupply acceptedLog
  rw [List.filter_map, List.map_map]
  refine congrArg List.sum (congrArg (List.map _) (List.filter_congr fun entry hentry => ?_))
  exact decide_eq_decide.mpr (hlog.original_iff htracked hstart htype hentry)

end

end Amberchain.Entity
