import Amberchain.Wallet.Definitions

/-!
# Heights of the definitions

How the definitions of the chain import stand to the blocks that are connected.  A
transaction of the chain is on disk with its height and waits nowhere.  Any other is on
disk as unconfirmed, above the height, or invalid.
-/

namespace Amberchain.Wallet

namespace DefPart

def Waits (part : DefPart) (hash : Hash256) : Prop :=
  part.raw hash ≠ none ∨ part.update hash ≠ none

/-- The definitions, against the blocks of the chain, the transactions that were ever
added, and the block that a waiting definition is expected to carry. -/
structure Follows (part : DefPart) (chain : List (List Hash256)) (added : List Hash256)
    (expected : Hash256 → ℤ) : Prop where
  height : part.block = chain.length - 1
  chainImport : part.importId = 0
  importHeight : part.importBlock = part.block
  settled : part.defs.Settled
  raw_block : ∀ hash txDef, part.raw hash = some txDef → txDef.block = expected hash
  update_block : ∀ hash txDef, part.update hash = some txDef → txDef.block = expected hash
  raw_new : ∀ hash, part.raw hash ≠ none →
    part.update hash = none ∧ part.defs.read hash = none
  update_stored : ∀ hash, part.update hash ≠ none → part.defs.read hash ≠ none
  waits : ∀ hash, expected hash ≠ -1 → part.Waits hash
  confirmed : ∀ (height : ℕ) block hash, chain[height]? = some block → hash ∈ block →
    ¬part.Waits hash ∧ ∃ txDef, part.defs.read hash = some txDef ∧ txDef.block = height
  stale : ∀ hash txDef, (∀ block ∈ chain, hash ∉ block) → part.defs.read hash = some txDef →
    txDef.block = -1 ∨ part.block < txDef.block ∨ txDef.invalid = true
  known : ∀ hash ∈ added, part.Waits hash ∨ part.defs.read hash ≠ none
  stored_added : ∀ hash txDef, part.defs.read hash = some txDef → 0 ≤ txDef.block →
    hash ∈ added
  expected_added : ∀ hash, 0 ≤ expected hash → hash ∈ added

variable {part : DefPart} {chain : List (List Hash256)} {added : List Hash256}
  {expected : Hash256 → ℤ}

/-- Nothing is expected to be confirmed before the next block. -/
def unconfirmed : Hash256 → ℤ :=
  fun _ => -1

theorem waits_iff (hash : Hash256) :
    ¬part.Waits hash ↔ part.raw hash = none ∧ part.update hash = none := by
  simp only [Waits, not_or, not_not]

theorem getTx_of_not_waits {hash : Hash256} (hwaits : ¬part.Waits hash) :
    part.getTx hash = (part.defs.read hash).map part.report := by
  obtain ⟨hraw, hupdate⟩ := (waits_iff hash).mp hwaits
  simp [getTx, hraw, hupdate]

theorem getTx_eq_none_iff (hash : Hash256) :
    part.getTx hash = none ↔ ¬part.Waits hash ∧ part.defs.read hash = none := by
  rw [waits_iff]
  simp only [getTx, Option.map_eq_none_iff, Option.or_eq_none_iff, and_assoc]

theorem report_block_of_le {txDef : TxDefRow} (hblock : txDef.block ≤ part.block) :
    part.report txDef = txDef :=
  if_neg (Int.not_lt.mpr hblock)

@[simp]
theorem place_block (txDef : TxDefRow) (tx : TxArgs) (erase : Bool) :
    (txDef.place tx erase).block = tx.block := by
  unfold TxDefRow.place
  split <;> rfl

/-- What `addTx` leaves waiting: one more definition, with the block of the transaction;
its place is among the new ones exactly when nothing is on disk. -/
theorem addTx_cases (hfollows : part.Follows chain added expected) (tx : TxArgs) :
    (∃ txDef : TxDefRow, txDef.block = tx.block ∧ part.update tx.hash = none
        ∧ part.defs.read tx.hash = none ∧ part.addTx tx = part.setRaw tx.hash txDef)
      ∨ ∃ txDef : TxDefRow, txDef.block = tx.block ∧ part.raw tx.hash = none
        ∧ part.defs.read tx.hash ≠ none ∧ part.addTx tx = part.setUpdate tx.hash txDef := by
  unfold addTx
  cases hfound : part.getTx tx.hash with
  | none =>
    obtain ⟨hwaits, hread⟩ := (getTx_eq_none_iff tx.hash).mp hfound
    exact .inl ⟨_, place_block _ tx true, ((waits_iff _).mp hwaits).2, hread, rfl⟩
  | some txDef =>
    cases hraw : part.raw tx.hash with
    | some waiting =>
      have hnew := hfollows.raw_new tx.hash (by rw [hraw]; exact Option.some_ne_none _)
      exact .inl ⟨_, place_block waiting tx true, hnew.1, hnew.2, rfl⟩
    | none =>
      refine .inr ⟨_, place_block txDef tx false, rfl, ?_, rfl⟩
      intro hread
      have hupdate : part.update tx.hash = none := by
        by_contra hupdate
        exact hfollows.update_stored tx.hash hupdate hread
      have hnone := (getTx_eq_none_iff tx.hash).mpr ⟨(waits_iff _).mpr ⟨hraw, hupdate⟩, hread⟩
      rw [hfound] at hnone
      cases hnone

/-- A definition that starts to wait, new or for one on disk, is followed with the block it
carries. -/
theorem follows_wait (hfollows : part.Follows chain added expected) {hash : Hash256} {block : ℤ}
    {after : DefPart} (hnew : ∀ confirmed ∈ chain, hash ∉ confirmed)
    (hblock : after.block = part.block) (hid : after.importId = part.importId)
    (himport : after.importBlock = part.importBlock) (hdefs : after.defs = part.defs)
    (hraw : ∀ other ≠ hash, after.raw other = part.raw other)
    (hupdate : ∀ other ≠ hash, after.update other = part.update other)
    (hrawBlock : ∀ txDef, after.raw hash = some txDef → txDef.block = block)
    (hupdateBlock : ∀ txDef, after.update hash = some txDef → txDef.block = block)
    (hrawNew : after.raw hash ≠ none → after.update hash = none ∧ part.defs.read hash = none)
    (hupdateStored : after.update hash ≠ none → part.defs.read hash ≠ none)
    (hwaits : after.Waits hash) :
    after.Follows chain (hash :: added) (Function.update expected hash block) where
  height := hblock.trans hfollows.height
  chainImport := hid.trans hfollows.chainImport
  importHeight := by rw [himport, hblock, hfollows.importHeight]
  settled := by rw [hdefs]; exact hfollows.settled
  raw_block := by
    intro other txDef hother
    by_cases hsame : other = hash
    · subst hsame
      rw [Function.update_self]
      exact hrawBlock txDef hother
    rw [Function.update_of_ne hsame]
    exact hfollows.raw_block other txDef (hraw other hsame ▸ hother)
  update_block := by
    intro other txDef hother
    by_cases hsame : other = hash
    · subst hsame
      rw [Function.update_self]
      exact hupdateBlock txDef hother
    rw [Function.update_of_ne hsame]
    exact hfollows.update_block other txDef (hupdate other hsame ▸ hother)
  raw_new := by
    intro other hother
    by_cases hsame : other = hash
    · subst hsame
      rw [hdefs]
      exact hrawNew hother
    rw [hdefs, hupdate other hsame]
    exact hfollows.raw_new other (hraw other hsame ▸ hother)
  update_stored := by
    intro other hother
    rw [hdefs]
    by_cases hsame : other = hash
    · subst hsame
      exact hupdateStored hother
    · exact hfollows.update_stored other (hupdate other hsame ▸ hother)
  waits := by
    intro other hother
    by_cases hsame : other = hash
    · subst hsame
      exact hwaits
    rw [Function.update_of_ne hsame] at hother
    have hold := hfollows.waits other hother
    rwa [Waits, ← hraw other hsame, ← hupdate other hsame] at hold
  confirmed := by
    intro height confirmed other hconfirmed hother
    have hne : other ≠ hash := by
      rintro rfl
      exact hnew confirmed (List.mem_of_getElem? hconfirmed) hother
    have hold := hfollows.confirmed height confirmed other hconfirmed hother
    rw [Waits, hraw other hne, hupdate other hne, hdefs]
    exact hold
  stale := by
    intro other txDef hother hread
    rw [hdefs] at hread
    rw [hblock]
    exact hfollows.stale other txDef hother hread
  known := by
    intro other hother
    by_cases hsame : other = hash
    · subst hsame
      exact .inl hwaits
    have hold := hfollows.known other ((List.mem_cons.mp hother).resolve_left hsame)
    rwa [Waits, ← hraw other hsame, ← hupdate other hsame, ← hdefs] at hold
  stored_added := by
    intro other txDef hread hconfirmed
    rw [hdefs] at hread
    exact .tail _ (hfollows.stored_added other txDef hread hconfirmed)
  expected_added := by
    intro other hother
    by_cases hsame : other = hash
    · subst hsame
      exact .head _
    rw [Function.update_of_ne hsame] at hother
    exact .tail _ (hfollows.expected_added other hother)

/-- `AddTx` of a transaction that is not in the chain. -/
theorem follows_addTx (hfollows : part.Follows chain added expected) {tx : TxArgs}
    (hnew : ∀ block ∈ chain, tx.hash ∉ block) : (part.addTx tx).Follows chain (tx.hash :: added)
      (Function.update expected tx.hash tx.block) := by
  rcases addTx_cases hfollows tx with ⟨txDef, hblock, hupdate, hread, hadded⟩ |
    ⟨txDef, hblock, hraw, hread, hadded⟩
  · rw [hadded]
    refine follows_wait hfollows hnew rfl rfl rfl rfl
      (fun other hother => raw_setRaw_of_ne part txDef hother) (fun _ _ => rfl) ?_ ?_ ?_ ?_ ?_
    · intro txDef' htxDef
      rw [raw_setRaw_self] at htxDef
      cases htxDef
      exact hblock
    · intro txDef' htxDef
      have hnone : part.update tx.hash = some txDef' := htxDef
      rw [hupdate] at hnone
      cases hnone
    · exact fun _ => ⟨hupdate, hread⟩
    · exact fun hwaiting => (hwaiting hupdate).elim
    left
    rw [raw_setRaw_self]
    exact Option.some_ne_none _
  rw [hadded]
  refine follows_wait hfollows hnew rfl rfl rfl rfl (fun _ _ => rfl)
    (fun other hother => update_setUpdate_of_ne part txDef hother) ?_ ?_ ?_ ?_ ?_
  · intro txDef' htxDef
    have hnone : part.raw tx.hash = some txDef' := htxDef
    rw [hraw] at hnone
    cases hnone
  · intro txDef' htxDef
    rw [update_setUpdate_self] at htxDef
    cases htxDef
    exact hblock
  · exact fun hwaiting => (hwaiting hraw).elim
  · exact fun _ => hread
  right
  rw [update_setUpdate_self]
  exact Option.some_ne_none _

/-- A key that is not known gets an unconfirmed definition; one that is known stays. -/
theorem follows_addSubKeyDef (hfollows : part.Follows chain added expected) {hash : Hash256}
    {txDef : TxDefRow} (hblock : txDef.block = -1) :
    (part.addSubKeyDef hash txDef).Follows chain added expected := by
  unfold addSubKeyDef
  cases hfound : part.getTx hash with
  | some known => exact hfollows
  | none =>
    obtain ⟨hwaits, hread⟩ := (getTx_eq_none_iff hash).mp hfound
    obtain ⟨-, hupdate⟩ := (waits_iff hash).mp hwaits
    have hexpected : expected hash = -1 := by
      by_contra hexpected
      exact hwaits (hfollows.waits hash hexpected)
    have hnew : ∀ block ∈ chain, hash ∉ block := by
      intro block hmem hhash
      obtain ⟨height, hheight⟩ := List.mem_iff_getElem?.mp hmem
      obtain ⟨-, stored, hstored, -⟩ := hfollows.confirmed height block hash hheight hhash
      rw [hread] at hstored
      cases hstored
    have hwait : (part.setRaw hash txDef).Follows chain (hash :: added)
        (Function.update expected hash (-1)) := by
      refine follows_wait hfollows hnew rfl rfl rfl rfl
        (fun other hother => raw_setRaw_of_ne part txDef hother) (fun _ _ => rfl) ?_ ?_
        (fun _ => ⟨hupdate, hread⟩) (fun hwaiting => (hwaiting hupdate).elim) ?_
      · intro txDef' htxDef
        rw [raw_setRaw_self] at htxDef
        cases htxDef
        exact hblock
      · intro txDef' htxDef
        have hnone : part.update hash = some txDef' := htxDef
        rw [hupdate] at hnone
        cases hnone
      left
      rw [raw_setRaw_self]
      exact Option.some_ne_none _
    rw [← hexpected, Function.update_eq_self] at hwait
    exact { hwait with
      known := fun other hother => hwait.known other (.tail _ hother)
      stored_added := hfollows.stored_added
      expected_added := hfollows.expected_added }

theorem invalid_changeFlag (txDef : TxDefRow) :
    (TxDB.changeFlag flagInvalid true txDef).invalid = true := by
  have hbit : (txDef.flags ||| flagInvalid) &&& flagInvalid = flagInvalid := by
    ext index
    simp only [BitVec.getElem_and, BitVec.getElem_or]
    exact Bool.and_eq_right_iff_imp.mpr fun hbit => by rw [hbit, Bool.or_true]
  have hflags : (TxDB.changeFlag flagInvalid true txDef).flags = txDef.flags ||| flagInvalid := rfl
  rw [TxDefRow.invalid, hflags, hbit]
  decide

/-- Definitions change, but not their blocks, and none on disk becomes valid again. -/
structure Marks (part after : DefPart) : Prop where
  block : after.block = part.block
  importId : after.importId = part.importId
  importBlock : after.importBlock = part.importBlock
  settled : after.defs.Settled
  raw : ∀ hash, (after.raw hash).map TxDefRow.block = (part.raw hash).map TxDefRow.block
  update : ∀ hash, (after.update hash).map TxDefRow.block = (part.update hash).map TxDefRow.block
  stored : ∀ hash,
    (after.defs.read hash).map TxDefRow.block = (part.defs.read hash).map TxDefRow.block
  invalid : ∀ hash txDef marked, part.defs.read hash = some txDef →
    after.defs.read hash = some marked → txDef.invalid = true → marked.invalid = true

theorem marks_markInvalid (hsettled : part.defs.Settled) (hash : Hash256) :
    Marks part (part.markInvalid hash) := by
  have hupdated : ∀ other, (Function.update part.update hash
      ((part.update hash).map (TxDB.changeFlag flagInvalid true)) other).map TxDefRow.block =
        (part.update other).map TxDefRow.block := by
    intro other
    by_cases hother : other = hash
    · subst hother
      rw [Function.update_self, Option.map_map]
      rfl
    · rw [Function.update_of_ne hother]
  have hsame : ∀ other txDef marked, part.defs.read other = some txDef →
      part.defs.read other = some marked → txDef.invalid = true → marked.invalid = true := by
    intro other txDef marked htxDef hmarked hinvalid
    rw [htxDef] at hmarked
    cases hmarked
    exact hinvalid
  unfold markInvalid
  cases hraw : part.raw hash with
  | some txDef =>
    refine ⟨rfl, rfl, rfl, hsettled, ?_, fun _ => rfl, fun _ => rfl, hsame⟩
    intro other
    by_cases hother : other = hash
    · subst hother
      rw [raw_setRaw_self, hraw]
      rfl
    · rw [raw_setRaw_of_ne part _ hother]
  | none =>
    cases hread : part.defs.read hash with
    | none => exact ⟨rfl, rfl, rfl, hsettled, fun _ => rfl, hupdated, fun _ => rfl, hsame⟩
    | some txDef =>
      refine ⟨rfl, rfl, rfl, Batched.settled_commit, fun _ => rfl, hupdated, ?_, ?_⟩
      · intro other
        by_cases hother : other = hash
        · subst hother
          simp only [Batched.read_commit, Batched.latest_put_self, hread]
          rfl
        simp only [Batched.read_commit, Batched.latest_put_of_ne _ hother,
          Batched.latest_of_settled hsettled]
      intro other stored marked hstored hmarked hinvalid
      by_cases hother : other = hash
      · subst hother
        simp only [Batched.read_commit, Batched.latest_put_self] at hmarked
        cases hmarked
        exact invalid_changeFlag txDef
      simp only [Batched.read_commit, Batched.latest_put_of_ne _ hother,
        Batched.latest_of_settled hsettled] at hmarked
      exact hsame other stored marked hstored hmarked hinvalid

theorem ne_none_of_map_block {first second : Option TxDefRow}
    (hblock : first.map TxDefRow.block = second.map TxDefRow.block) :
    first ≠ none ↔ second ≠ none := by
  rw [not_iff_not, ← Option.map_eq_none_iff, hblock, Option.map_eq_none_iff]

theorem exists_of_map_block {first second : Option TxDefRow} {txDef : TxDefRow}
    (hblock : first.map TxDefRow.block = second.map TxDefRow.block)
    (hfirst : first = some txDef) : ∃ other, second = some other ∧ other.block = txDef.block := by
  rw [hfirst] at hblock
  exact Option.map_eq_some_iff.mp hblock.symm

theorem follows_of_marks (hfollows : part.Follows chain added expected) {after : DefPart}
    (hmarks : Marks part after) : after.Follows chain added expected := by
  have hraw : ∀ hash, after.raw hash ≠ none ↔ part.raw hash ≠ none := fun hash =>
    ne_none_of_map_block (hmarks.raw hash)
  have hupdate : ∀ hash, after.update hash ≠ none ↔ part.update hash ≠ none := fun hash =>
    ne_none_of_map_block (hmarks.update hash)
  have hread : ∀ hash, after.defs.read hash ≠ none ↔ part.defs.read hash ≠ none := fun hash =>
    ne_none_of_map_block (hmarks.stored hash)
  have hwaits : ∀ hash, after.Waits hash ↔ part.Waits hash := fun hash =>
    or_congr (hraw hash) (hupdate hash)
  constructor
  case height => rw [hmarks.block, hfollows.height]
  case chainImport => rw [hmarks.importId, hfollows.chainImport]
  case importHeight => rw [hmarks.importBlock, hmarks.block, hfollows.importHeight]
  case settled => exact hmarks.settled
  case raw_block =>
    intro hash txDef htxDef
    obtain ⟨other, hother, hblock⟩ := exists_of_map_block (hmarks.raw hash) htxDef
    rw [← hblock, hfollows.raw_block hash other hother]
  case update_block =>
    intro hash txDef htxDef
    obtain ⟨other, hother, hblock⟩ := exists_of_map_block (hmarks.update hash) htxDef
    rw [← hblock, hfollows.update_block hash other hother]
  case raw_new =>
    intro hash hnew
    obtain ⟨hnone, hunread⟩ := hfollows.raw_new hash ((hraw hash).mp hnew)
    constructor
    · by_contra hsome
      exact (hupdate hash).mp hsome hnone
    by_contra hsome
    exact (hread hash).mp hsome hunread
  case update_stored =>
    exact fun hash hsome => (hread hash).mpr (hfollows.update_stored hash ((hupdate hash).mp hsome))
  case waits =>
    exact fun hash hexpected => (hwaits hash).mpr (hfollows.waits hash hexpected)
  case confirmed =>
    intro height block hash hblock hhash
    obtain ⟨hnone, txDef, htxDef, hheight⟩ := hfollows.confirmed height block hash hblock hhash
    obtain ⟨other, hother, hsame⟩ := exists_of_map_block (hmarks.stored hash).symm htxDef
    exact ⟨fun hsome => hnone ((hwaits hash).mp hsome), other, hother, hsame.trans hheight⟩
  case stale =>
    intro hash txDef hhash htxDef
    obtain ⟨other, hother, hsame⟩ := exists_of_map_block (hmarks.stored hash) htxDef
    rw [hmarks.block, ← hsame]
    rcases hfollows.stale hash other hhash hother with hblock | hblock | hinvalid
    · exact .inl hblock
    · exact .inr (.inl hblock)
    · exact .inr (.inr (hmarks.invalid hash other txDef hother htxDef hinvalid))
  case known =>
    intro hash hhash
    rw [hwaits hash, hread hash]
    exact hfollows.known hash hhash
  case stored_added =>
    intro hash txDef htxDef hconfirmed
    obtain ⟨other, hother, hsame⟩ := exists_of_map_block (hmarks.stored hash) htxDef
    exact hfollows.stored_added hash other hother (hsame ▸ hconfirmed)
  case expected_added => exact hfollows.expected_added

/-- The updates are dropped. -/
theorem follows_clear (hfollows : part.Follows chain added unconfirmed) :
    ({ part with update := fun _ => none } : DefPart).Follows chain added unconfirmed where
  height := hfollows.height
  chainImport := hfollows.chainImport
  importHeight := hfollows.importHeight
  settled := hfollows.settled
  raw_block := hfollows.raw_block
  update_block := by
    intro hash txDef htxDef
    cases htxDef
  raw_new := fun hash hnew => ⟨rfl, (hfollows.raw_new hash hnew).2⟩
  update_stored := fun hash hsome => (hsome rfl).elim
  waits := fun hash hexpected => (hexpected rfl).elim
  confirmed := by
    intro height block hash hblock hhash
    obtain ⟨hwaits, hstored⟩ := hfollows.confirmed height block hash hblock hhash
    exact ⟨(waits_iff hash).mpr ⟨((waits_iff hash).mp hwaits).1, rfl⟩, hstored⟩
  stale := hfollows.stale
  known := by
    intro hash hhash
    rcases hfollows.known hash hhash with (hraw | hupdate) | hread
    · exact .inl (.inl hraw)
    · exact .inr (hfollows.update_stored hash hupdate)
    · exact .inr hread
  stored_added := hfollows.stored_added
  expected_added := hfollows.expected_added

/-- The height goes down, and the blocks above leave the chain. -/
theorem follows_lower (hfollows : part.Follows chain added unconfirmed) {block : ℤ}
    (hlow : -1 ≤ block) (hbelow : block ≤ part.block) :
    ({ part with block := block, importBlock := block } : DefPart).Follows
      (chain.take (block + 1).toNat) added unconfirmed where
  height := by
    have hheight := hfollows.height
    change block = _
    rw [List.length_take]
    omega
  chainImport := hfollows.chainImport
  importHeight := rfl
  settled := hfollows.settled
  raw_block := hfollows.raw_block
  update_block := hfollows.update_block
  raw_new := hfollows.raw_new
  update_stored := hfollows.update_stored
  waits := fun hash hexpected => (hexpected rfl).elim
  confirmed := by
    intro height confirmed hash hconfirmed hhash
    rw [List.getElem?_take] at hconfirmed
    split at hconfirmed
    · exact hfollows.confirmed height confirmed hash hconfirmed hhash
    · cases hconfirmed
  stale := by
    intro hash txDef hhash htxDef
    by_cases hchain : ∃ confirmed ∈ chain, hash ∈ confirmed
    · obtain ⟨confirmed, hmem, hconfirmed⟩ := hchain
      obtain ⟨height, hheight⟩ := List.mem_iff_getElem?.mp hmem
      obtain ⟨-, stored, hstored, hblock⟩ :=
        hfollows.confirmed height confirmed hash hheight hconfirmed
      rw [htxDef] at hstored
      cases hstored
      have habove : ¬height < (block + 1).toNat := by
        intro hbelowBlock
        refine hhash confirmed (List.mem_iff_getElem?.mpr ⟨height, ?_⟩) hconfirmed
        rw [List.getElem?_take_of_lt hbelowBlock, hheight]
      right
      left
      change block < txDef.block
      omega
    have hnone : ∀ confirmed ∈ chain, hash ∉ confirmed := by
      intro confirmed hmem hconfirmed
      exact hchain ⟨confirmed, hmem, hconfirmed⟩
    rcases hfollows.stale hash txDef hnone htxDef with hblock | habove | hinvalid
    · exact .inl hblock
    · exact .inr (.inl (Int.lt_of_le_of_lt hbelow habove))
    · exact .inr (.inr hinvalid)
  known := hfollows.known
  stored_added := hfollows.stored_added
  expected_added := hfollows.expected_added

/-- What waits goes to disk, and the next block is connected. -/
def committed (part : DefPart) : DefPart :=
  { part with
    block := part.importBlock + 1
    importBlock := part.importBlock + 1
    raw := fun _ => none
    update := fun _ => none
    defs := ((part.defs.putAll part.raw).putAll part.update).commit }

theorem read_committed (hsettled : part.defs.Settled) (hash : Hash256) :
    part.committed.defs.read hash =
      (part.update hash).or ((part.raw hash).or (part.defs.read hash)) := by
  simp only [committed, Batched.read_commit, Batched.latest_putAll,
    Batched.latest_of_settled hsettled]

theorem read_committed_of_not_waits (hsettled : part.defs.Settled) {hash : Hash256}
    (hwaits : ¬part.Waits hash) : part.committed.defs.read hash = part.defs.read hash := by
  obtain ⟨hraw, hupdate⟩ := (waits_iff hash).mp hwaits
  rw [read_committed hsettled, hraw, hupdate, Option.none_or, Option.none_or]

theorem read_committed_of_waits (hfollows : part.Follows chain added expected) {hash : Hash256}
    (hwaits : part.Waits hash) :
    ∃ txDef, part.committed.defs.read hash = some txDef ∧ txDef.block = expected hash := by
  rw [read_committed hfollows.settled]
  cases hupdate : part.update hash with
  | some txDef => exact ⟨txDef, rfl, hfollows.update_block hash txDef hupdate⟩
  | none =>
    obtain ⟨txDef, hraw⟩ := Option.ne_none_iff_exists'.mp (hwaits.resolve_right (not_not.mpr hupdate))
    rw [hraw]
    exact ⟨txDef, rfl, hfollows.raw_block hash txDef hraw⟩

/-- No valid definition on disk carries the next height, unless it is replaced. -/
def Rewrites (part : DefPart) : Prop :=
  ∀ hash txDef, part.defs.read hash = some txDef → txDef.block = part.block + 1 →
    txDef.invalid = false → part.Waits hash

theorem follows_committed (hfollows : part.Follows chain added expected) {block : List Hash256}
    (hblock : ∀ hash ∈ block, expected hash = chain.length)
    (hother : ∀ hash, hash ∉ block → expected hash = -1) (hrewrites : part.Rewrites) :
    part.committed.Follows (chain ++ [block]) added unconfirmed := by
  have hheight : part.committed.block = chain.length := by
    have hpart := hfollows.height
    have himport := hfollows.importHeight
    change part.importBlock + 1 = _
    omega
  constructor
  case height =>
    rw [List.length_append, List.length_singleton]
    omega
  case chainImport => exact hfollows.chainImport
  case importHeight => rfl
  case settled => exact Batched.settled_commit
  case raw_block =>
    intro hash txDef htxDef
    cases htxDef
  case update_block =>
    intro hash txDef htxDef
    cases htxDef
  case raw_new => exact fun hash hnew => (hnew rfl).elim
  case update_stored => exact fun hash hsome => (hsome rfl).elim
  case waits => exact fun hash hexpected => (hexpected rfl).elim
  case confirmed =>
    intro height confirmed hash hconfirmed hhash
    refine ⟨(waits_iff hash).mpr ⟨rfl, rfl⟩, ?_⟩
    by_cases hold : height < chain.length
    · rw [List.getElem?_append_left hold] at hconfirmed
      obtain ⟨hwaits, hstored⟩ := hfollows.confirmed height confirmed hash hconfirmed hhash
      rwa [read_committed_of_not_waits hfollows.settled hwaits]
    rw [List.getElem?_append_right (Nat.not_lt.mp hold)] at hconfirmed
    obtain ⟨hindex, hsame⟩ := List.getElem?_eq_some_iff.mp hconfirmed
    rw [List.getElem_singleton] at hsame
    subst hsame
    have hwaits := hfollows.waits hash (by rw [hblock hash hhash]; omega)
    obtain ⟨txDef, htxDef, hplace⟩ := read_committed_of_waits hfollows hwaits
    refine ⟨txDef, htxDef, ?_⟩
    rw [List.length_singleton] at hindex
    have hlast : height = chain.length := by omega
    rw [hplace, hblock hash hhash, hlast]
  case stale =>
    intro hash txDef hhash htxDef
    have hnone : ∀ confirmed ∈ chain, hash ∉ confirmed := fun confirmed hmem =>
      hhash confirmed (List.mem_append_left _ hmem)
    have hexpected := hother hash (hhash block (List.mem_append_right _ (.head _)))
    by_cases hwaits : part.Waits hash
    · obtain ⟨stored, hstored, hplace⟩ := read_committed_of_waits hfollows hwaits
      rw [htxDef] at hstored
      cases hstored
      exact .inl (hplace.trans hexpected)
    rw [read_committed_of_not_waits hfollows.settled hwaits] at htxDef
    rcases hfollows.stale hash txDef hnone htxDef with hblock' | habove | hinvalid
    · exact .inl hblock'
    · by_cases hnext : txDef.block = part.block + 1
      · by_cases hvalid : txDef.invalid = true
        · exact .inr (.inr hvalid)
        · exact (hwaits (hrewrites hash txDef htxDef hnext (Bool.not_eq_true _ ▸ hvalid))).elim
      right
      left
      have hpart := hfollows.height
      omega
    · exact .inr (.inr hinvalid)
  case known =>
    intro hash hhash
    right
    by_cases hwaits : part.Waits hash
    · obtain ⟨txDef, htxDef, -⟩ := read_committed_of_waits hfollows hwaits
      rw [htxDef]
      exact Option.some_ne_none _
    rw [read_committed_of_not_waits hfollows.settled hwaits]
    exact (hfollows.known hash hhash).resolve_left hwaits
  case stored_added =>
    intro hash txDef htxDef hconfirmed
    by_cases hwaits : part.Waits hash
    · obtain ⟨stored, hstored, hplace⟩ := read_committed_of_waits hfollows hwaits
      rw [htxDef] at hstored
      cases hstored
      exact hfollows.expected_added hash (hplace ▸ hconfirmed)
    rw [read_committed_of_not_waits hfollows.settled hwaits] at htxDef
    exact hfollows.stored_added hash txDef htxDef hconfirmed
  case expected_added =>
    intro hash hexpected
    cases hexpected

end DefPart

end Amberchain.Wallet
