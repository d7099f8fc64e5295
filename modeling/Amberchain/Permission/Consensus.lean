import Amberchain.Base.LatestVote
import Amberchain.Permission.RollBackBlocks

/-!
# Counting the admins behind a grant

`VerifyConsensus` walks over the rows of a key from the newest to the oldest and
keeps the latest row of each admin.  It stops as soon as enough admins agree, so
older rows with a later timestamp are not looked at.
-/

namespace Amberchain.Permission

open RowChain LatestVote

/-- The rows of a key before `base`, from the newest to the oldest. -/
def keyRows (row : ℕ → LedgerRow) (key : PermKey) : ℕ → List LedgerRow
  | 0 => []
  | n + 1 => if 0 < n ∧ (row n).key = key then row n :: keyRows row key n else keyRows row key n

theorem keyRows_eq_nil {row : ℕ → LedgerRow} {key : PermKey} {n : ℕ}
    (hnone : newestRow row key n = 0) : keyRows row key n = [] := by
  induction n with
  | zero => rfl
  | succ n ih =>
    by_cases hlast : 0 < n ∧ (row n).key = key
    · have hnewest : newestRow row key (n + 1) = n := if_pos hlast
      exact absurd (hnewest.symm.trans hnone) hlast.1.ne'
    have hnewest : newestRow row key (n + 1) = newestRow row key n := if_neg hlast
    rw [keyRows, if_neg hlast]
    exact ih (hnewest.symm.trans hnone)

theorem keyRows_eq_cons {row : ℕ → LedgerRow} {key : PermKey} {n : ℕ}
    (hrow : newestRow row key n ≠ 0) : keyRows row key n =
      row (newestRow row key n) :: keyRows row key (newestRow row key n) := by
  induction n with
  | zero => exact absurd rfl hrow
  | succ n ih =>
    by_cases hlast : 0 < n ∧ (row n).key = key
    · have hnewest : newestRow row key (n + 1) = n := if_pos hlast
      rw [keyRows, if_pos hlast, hnewest]
    have hnewest : newestRow row key (n + 1) = newestRow row key n := if_neg hlast
    rw [keyRows, if_neg hlast, hnewest]
    exact ih (by rwa [hnewest] at hrow)

namespace Store

def agreeing (newRow : LedgerRow) (rows : List LedgerRow) : Finset Hash160 :=
  supporters LedgerRow.admin LedgerRow.timestamp (sameGrant newRow) rows

/-- The rows of a key before `base` that are newer than its last row in
consensus. -/
def openRows (store : Store) (key : PermKey) (base : ℕ) : List LedgerRow :=
  (keyRows store.logRow key base).takeWhile fun row => row.consensus = 0

def openGrants (store : Store) (newRow : LedgerRow) : List LedgerRow :=
  newRow :: store.openRows newRow.key store.row

/-- A row as `m_TmpPool` files it, under its admin. -/
def filed (row : LedgerRow) : LedgerRow :=
  { row with key := { row.key with address := row.admin } }

/-- The table holds the latest row of each admin, and `left` is what is missing
to the consensus. -/
structure Tallied (newRow : LedgerRow) (consensus : ℤ) (rows tmpPool : List LedgerRow)
    (left : ℤ) : Prop where
  sameKey : ∀ row ∈ rows, row.key = newRow.key
  table : ∀ other, other ∈ tmpPool ↔
    ∃ row, latest LedgerRow.admin LedgerRow.timestamp row.admin rows = some row ∧
      other = filed row
  keys : (tmpPool.map LedgerRow.key).Nodup
  left : left = consensus - (agreeing newRow rows).card

theorem tallied_nil (newRow : LedgerRow) (consensus : ℤ) :
    Tallied newRow consensus [] [] consensus := by
  refine ⟨fun _ hmem => absurd hmem List.not_mem_nil, fun other => ?_, List.nodup_nil, ?_⟩
  · simp [latest]
  simp [agreeing, supporters]

theorem mem_of_latest {admin : Hash160} {rows : List LedgerRow} {row : LedgerRow}
    (hlatest : latest LedgerRow.admin LedgerRow.timestamp admin rows = some row) : row ∈ rows := by
  obtain ⟨-, -, rfl, -⟩ := latest_eq_some hlatest
  exact List.mem_append_right _ (.head _)

theorem filed_key_eq_iff {row other : LedgerRow} (hkey : row.key = other.key) :
    (filed row).key = (filed other).key ↔ row.admin = other.admin := by
  unfold filed
  rw [hkey]
  simp

/-- Overwriting an entry of a table without repeated keys replaces it. -/
theorem mem_set_of_nodup {tmpPool : List LedgerRow} {found : ℕ} {row : LedgerRow}
    (hfound : found < tmpPool.length) (hkeys : (tmpPool.map LedgerRow.key).Nodup)
    (hkey : tmpPool[found].key = row.key) (other : LedgerRow) :
    other ∈ tmpPool.set found row ↔ other = row ∨ other ∈ tmpPool ∧ other.key ≠ row.key := by
  have hunique : ∀ i (hi : i < tmpPool.length), tmpPool[i].key = row.key → i = found := by
    intro i hi heq
    have hsame : tmpPool[i] = tmpPool[found] :=
      List.inj_on_of_nodup_map hkeys (List.getElem_mem _) (List.getElem_mem _)
        (heq.trans hkey.symm)
    exact (hkeys.of_map _).getElem_inj_iff.mp hsame
  constructor
  · intro hmem
    obtain ⟨i, hi, rfl⟩ := List.getElem_of_mem hmem
    rw [List.length_set] at hi
    by_cases heq : found = i
    · subst heq
      exact .inl (List.getElem_set_self _)
    rw [List.getElem_set_ne heq]
    exact .inr ⟨List.getElem_mem _, fun hsame => heq (hunique i hi hsame).symm⟩
  rintro (rfl | ⟨hmem, hne⟩)
  · exact List.mem_set hfound _
  obtain ⟨i, hi, rfl⟩ := List.getElem_of_mem hmem
  have hdiff : found ≠ i := fun heq => hne (by subst heq; exact hkey)
  exact List.mem_iff_getElem.mpr ⟨i, by rwa [List.length_set], List.getElem_set_ne hdiff _⟩

theorem countAdmin_eq (newRow row : LedgerRow) (tmpPool : List LedgerRow) (required : ℤ) :
    countAdmin newRow row tmpPool required =
      match tmpPool.findIdx? fun other => other.key = (filed row).key with
      | none => (tmpPool ++ [filed row], required - if sameGrant newRow row then 1 else 0)
      | some found =>
        if (tmpPool.getD found (filed row)).timestamp < row.timestamp then
          (tmpPool.set found (filed row),
            required + (if sameGrant newRow (tmpPool.getD found (filed row)) then 1 else 0)
              - if sameGrant newRow row then 1 else 0)
        else (tmpPool, required) :=
  rfl

section Counting

variable {newRow row : LedgerRow} {consensus left : ℤ} {rows tmpPool : List LedgerRow}
  (htally : Tallied newRow consensus rows tmpPool left) (hkey : row.key = newRow.key)

include htally hkey

theorem Tallied.sameKey_concat : ∀ other ∈ rows ++ [row], other.key = newRow.key := by
  intro other hmem
  rcases List.mem_append.mp hmem with hmem | hmem
  · exact htally.sameKey other hmem
  rw [List.mem_singleton.mp hmem]
  exact hkey

theorem Tallied.filed_key_iff {other : LedgerRow}
    (hlatest : latest LedgerRow.admin LedgerRow.timestamp other.admin rows = some other) :
    (filed other).key = (filed row).key ↔ other.admin = row.admin :=
  filed_key_eq_iff ((htally.sameKey other (mem_of_latest hlatest)).trans hkey.symm)

/-- The first row of an admin is filed behind the others. -/
theorem Tallied.countAdmin_new
    (hfind : (tmpPool.findIdx? fun other => other.key = (filed row).key) = none) :
    Tallied newRow consensus (rows ++ [row]) (Store.countAdmin newRow row tmpPool left).1
        (Store.countAdmin newRow row tmpPool left).2 ∧
      left - 1 ≤ (Store.countAdmin newRow row tmpPool left).2 := by
  have hother : ∀ other ∈ tmpPool, other.key ≠ (filed row).key := fun other hmem => by
    simpa using List.findIdx?_eq_none_iff.mp hfind other hmem
  have hnone : latest LedgerRow.admin LedgerRow.timestamp row.admin rows = none := by
    cases hlatest : latest LedgerRow.admin LedgerRow.timestamp row.admin rows with
    | none => rfl
    | some standing =>
      have hadmin : standing.admin = row.admin := voter_latest hlatest
      rw [← hadmin] at hlatest
      exact absurd ((htally.filed_key_iff hkey hlatest).mpr hadmin)
        (hother _ ((htally.table _).mpr ⟨standing, hlatest, rfl⟩))
  have hnow : latest LedgerRow.admin LedgerRow.timestamp row.admin (rows ++ [row]) = some row := by
    rw [latest_concat, hnone]
    exact if_pos rfl
  have hcard : (agreeing newRow (rows ++ [row])).card =
      (agreeing newRow rows).card + if sameGrant newRow row then 1 else 0 := by
    have hmoved : (agreeing newRow (rows ++ [row])).card + _ = (agreeing newRow rows).card + _ :=
      card_supporters_concat (sameGrant newRow) rows row
    rw [hnone, hnow] at hmoved
    simpa using hmoved
  have hleft := htally.left
  rw [countAdmin_eq, hfind]
  dsimp only
  refine ⟨⟨htally.sameKey_concat hkey, fun other => ?_, ?_, ?_⟩, ?_⟩
  · rw [List.mem_append, List.mem_singleton, htally.table]
    constructor
    · rintro (⟨standing, hlatest, rfl⟩ | rfl)
      · have hne : row.admin ≠ standing.admin := fun heq => by
          rw [← heq, hnone] at hlatest
          cases hlatest
        exact ⟨standing, by rw [latest_concat_of_ne hne, hlatest], rfl⟩
      · exact ⟨row, hnow, rfl⟩
    rintro ⟨standing, hlatest, rfl⟩
    by_cases hadmin : row.admin = standing.admin
    · rw [← hadmin, hnow, Option.some.injEq] at hlatest
      rw [hlatest]
      exact .inr rfl
    rw [latest_concat_of_ne hadmin] at hlatest
    exact .inl ⟨standing, hlatest, rfl⟩
  · rw [List.map_append, List.nodup_append]
    refine ⟨htally.keys, List.nodup_singleton _, ?_⟩
    intro old hold new hnew
    obtain ⟨other, hmem, rfl⟩ := List.mem_map.mp hold
    rw [List.map_singleton, List.mem_singleton] at hnew
    rw [hnew]
    exact hother other hmem
  · rw [hcard]
    split <;> push_cast <;> omega
  split <;> omega

/-- A further row of an admin replaces an earlier one, or is ignored. -/
theorem Tallied.countAdmin_again {found : ℕ}
    (hfind : (tmpPool.findIdx? fun other => other.key = (filed row).key) = some found) :
    Tallied newRow consensus (rows ++ [row]) (Store.countAdmin newRow row tmpPool left).1
        (Store.countAdmin newRow row tmpPool left).2 ∧
      left - 1 ≤ (Store.countAdmin newRow row tmpPool left).2 := by
  obtain ⟨hfound, hfoundKey, -⟩ := List.findIdx?_eq_some_iff_getElem.mp hfind
  simp only [decide_eq_true_eq] at hfoundKey
  obtain ⟨standing, hlatest, heq⟩ := (htally.table _).mp (List.getElem_mem hfound)
  have hadmin : standing.admin = row.admin :=
    (htally.filed_key_iff hkey hlatest).mp (by rw [← heq]; exact hfoundKey)
  have hgetD : tmpPool.getD found (filed row) = filed standing := by
    rw [List.getD_eq_getElem _ _ hfound, heq]
  have hbefore : latest LedgerRow.admin LedgerRow.timestamp row.admin rows = some standing := by
    rw [← hadmin]
    exact hlatest
  have hleft := htally.left
  have hmoved : (agreeing newRow (rows ++ [row])).card + _ = (agreeing newRow rows).card + _ :=
    card_supporters_concat (sameGrant newRow) rows row
  rw [countAdmin_eq, hfind]
  dsimp only
  rw [hgetD]
  by_cases hlater : standing.timestamp < row.timestamp
  · have hnow : latest LedgerRow.admin LedgerRow.timestamp row.admin (rows ++ [row]) =
        some row := by
      rw [latest_concat, hbefore]
      exact if_pos ⟨rfl, hlater⟩
    rw [hbefore, hnow] at hmoved
    have hcard : (agreeing newRow (rows ++ [row])).card +
        (if sameGrant newRow standing then 1 else 0) =
        (agreeing newRow rows).card + if sameGrant newRow row then 1 else 0 := hmoved
    rw [if_pos (show (filed standing).timestamp < row.timestamp from hlater)]
    have hset := mem_set_of_nodup hfound htally.keys hfoundKey
    refine ⟨⟨htally.sameKey_concat hkey, fun other => ?_, ?_, ?_⟩, ?_⟩
    · rw [hset, htally.table]
      constructor
      · rintro (rfl | ⟨⟨other, hother, rfl⟩, hne⟩)
        · exact ⟨row, hnow, rfl⟩
        have hdiff : row.admin ≠ other.admin := fun hsame =>
          hne ((htally.filed_key_iff hkey hother).mpr hsame.symm)
        exact ⟨other, by rw [latest_concat_of_ne hdiff, hother], rfl⟩
      rintro ⟨other, hother, rfl⟩
      by_cases hsame : row.admin = other.admin
      · rw [← hsame, hnow, Option.some.injEq] at hother
        rw [hother]
        exact .inl rfl
      rw [latest_concat_of_ne hsame] at hother
      refine .inr ⟨⟨other, hother, rfl⟩, fun hkeys => hsame ?_⟩
      exact ((htally.filed_key_iff hkey hother).mp hkeys).symm
    · rw [List.map_set, ← hfoundKey, ← List.map_set, List.set_getElem_self]
      exact htally.keys
    · change _ + (if sameGrant newRow standing then 1 else 0) - _ = _
      cases hold : sameGrant newRow standing <;> cases hnew : sameGrant newRow row <;>
        simp only [hold, hnew, Bool.false_eq_true, if_true, if_false] at hcard ⊢ <;> omega
    · split <;> split <;> omega
  have hsame : ∀ admin, latest LedgerRow.admin LedgerRow.timestamp admin (rows ++ [row]) =
      latest LedgerRow.admin LedgerRow.timestamp admin rows := by
    intro admin
    by_cases heq : row.admin = admin
    · rw [latest_concat, ← heq, hbefore]
      exact if_neg fun hboth => hlater hboth.2
    · exact latest_concat_of_ne heq rows
  rw [hsame] at hmoved
  have hcard : (agreeing newRow (rows ++ [row])).card = (agreeing newRow rows).card :=
    Nat.add_right_cancel hmoved
  rw [if_neg (show ¬ (filed standing).timestamp < row.timestamp from hlater)]
  refine ⟨⟨htally.sameKey_concat hkey, fun other => ?_, htally.keys, ?_⟩, by omega⟩
  · rw [htally.table]
    simp only [hsame]
  rw [hcard]
  exact hleft

theorem Tallied.countAdmin :
    Tallied newRow consensus (rows ++ [row]) (Store.countAdmin newRow row tmpPool left).1
        (Store.countAdmin newRow row tmpPool left).2 ∧
      left - 1 ≤ (Store.countAdmin newRow row tmpPool left).2 := by
  cases hfind : tmpPool.findIdx? fun other => other.key = (filed row).key with
  | none => exact htally.countAdmin_new hkey hfind
  | some found => exact htally.countAdmin_again hkey hfind

end Counting

variable {params : ChainParams} {store : Store}

def reverted (newRow lastRow : LedgerRow) : LedgerRow :=
  { newRow with
    consensus := 0
    blockFrom := lastRow.blockFrom
    blockTo := lastRow.blockTo }

theorem Live.previousRow_eq (hlive : Live store) {newRow row : LedgerRow} (hpos : 0 < row.prevRow)
    (hkey : (store.logRow row.prevRow).key = newRow.key) :
    store.previousRow newRow row = .ok (store.logRow row.prevRow) := by
  unfold previousRow
  by_cases hge : store.memPoolStart ≤ row.prevRow
  · rw [if_pos hge, logRow_of_ge hge]
  have hlt := not_le.mp hge
  have hsize := hlive.files.size
  rw [logRow_of_lt hlt] at hkey ⊢
  rw [if_neg hge, if_neg (by omega)]
  rw [if_neg]
  rintro (hne | hne)
  · exact hne hkey
  exact hne (hlive.files.log.thisRow _ hpos hlt).symm

/-- The loop finds the consensus when some number of the newest rows has it. -/
theorem Live.verifyConsensusLoop_eq (hlive : Live store) {newRow lastRow : LedgerRow}
    {consensus : ℤ} (htype : newRow.key.type ≠ MC_PTP_BLOCK_INDEX) :
    ∀ (fuel base : ℕ) (row : LedgerRow) (seen tmpPool : List LedgerRow) (left : ℤ),
      row.key = newRow.key → row.prevRow = newestRow store.logRow newRow.key base →
      base ≤ store.row → base < fuel → Tallied newRow consensus seen tmpPool left → 0 < left →
      store.verifyConsensusLoop newRow lastRow fuel row tmpPool left = .ok newRow ∧
        (∃ count, consensus ≤ (agreeing newRow
          (seen ++ (row :: store.openRows newRow.key base).take count)).card) ∨
      store.verifyConsensusLoop newRow lastRow fuel row tmpPool left =
          .ok (reverted newRow lastRow) ∧ ∀ count, ((agreeing newRow
          (seen ++ (row :: store.openRows newRow.key base).take count)).card : ℤ) < consensus := by
  intro fuel
  induction fuel with
  | zero => exact fun base _ _ _ _ _ _ _ hlt => absurd hlt (Nat.not_lt_zero base)
  | succ fuel ih =>
    intro base row seen tmpPool left hkey hprev hbase hfuel htally hleft
    obtain ⟨hnext, hdown⟩ := htally.countAdmin hkey
    have hseen := htally.left
    have hnow := hnext.left
    -- before the next row is read, only the counted rows matter
    have hnone : 0 < (countAdmin newRow row tmpPool left).2 → store.openRows newRow.key base = [] →
        ∀ count, ((agreeing newRow
          (seen ++ (row :: store.openRows newRow.key base).take count)).card : ℤ) < consensus := by
      intro hpos hopen count
      rw [hopen]
      cases count with
      | zero =>
        rw [List.take_zero, List.append_nil]
        omega
      | succ count =>
        rw [List.take_succ_cons, List.take_nil]
        omega
    unfold verifyConsensusLoop
    by_cases hdone : (countAdmin newRow row tmpPool left).2 = 0
    · rw [if_pos hdone]
      refine .inl ⟨rfl, 1, ?_⟩
      rw [List.take_succ_cons, List.take_zero]
      omega
    have hpos : 0 < (countAdmin newRow row tmpPool left).2 := by omega
    rw [if_neg hdone]
    by_cases hfirst : row.prevRow = 0
    · rw [if_pos hfirst]
      have hopen : store.openRows newRow.key base = [] := by
        rw [openRows, keyRows_eq_nil (hprev.symm.trans hfirst)]
        rfl
      exact .inr ⟨rfl, hnone hpos hopen⟩
    have hrow : newestRow store.logRow newRow.key base ≠ 0 := by rwa [← hprev]
    have hlt : newestRow store.logRow newRow.key base < base := lastRow_lt hrow
    have hprevKey : (store.logRow row.prevRow).key = newRow.key := by
      rw [hprev]
      exact key_lastRow hrow
    have hkeys := keyRows_eq_cons hrow
    rw [← hprev] at hkeys hlt
    rw [if_neg hfirst, hlive.previousRow_eq (Nat.pos_of_ne_zero hfirst) hprevKey]
    dsimp only
    by_cases hconsensus : (store.logRow row.prevRow).consensus = 0
    · rw [if_neg (not_not.mpr hconsensus)]
      have hopen : store.openRows newRow.key base =
          store.logRow row.prevRow :: store.openRows newRow.key row.prevRow := by
        rw [openRows, hkeys, List.takeWhile_cons_of_pos (by simpa using hconsensus)]
        rfl
      have hlinked := hlive.pool.linked newRow.key htype row.prevRow
        (Nat.pos_of_ne_zero hfirst) (by omega) hprevKey
      have hshift : ∀ count, seen ++ (row :: store.openRows newRow.key base).take (count + 1) =
          seen ++ [row] ++ (store.openRows newRow.key base).take count := fun count => by
        rw [List.append_assoc]
        rfl
      rcases ih row.prevRow (store.logRow row.prevRow) (seen ++ [row]) _ _ hprevKey hlinked
        (by omega) (by omega) hnext hpos with ⟨hok, count, hcount⟩ | ⟨hok, hcounts⟩
      · refine .inl ⟨hok, count + 1, ?_⟩
        rw [hshift, hopen]
        exact hcount
      refine .inr ⟨hok, fun count => ?_⟩
      cases count with
      | zero =>
        rw [List.take_zero, List.append_nil]
        omega
      | succ count =>
        rw [hshift, hopen]
        exact hcounts count
    rw [if_pos hconsensus]
    have hopen : store.openRows newRow.key base = [] := by
      rw [openRows, hkeys, List.takeWhile_cons_of_neg (by simpa using hconsensus)]
    exact .inr ⟨rfl, hnone hpos hopen⟩

/-- The row that `VerifyConsensus` leaves is in consensus exactly when enough
admins stand by its grant, and shows the range of the last row otherwise. -/
def CountsConsensus (params : ChainParams) (store : Store) (newRow lastRow : LedgerRow) : Prop :=
  ∃ row, store.verifyConsensus params newRow lastRow = .ok row ∧
    (row.consensus ≠ 0 ↔ (store.adminConsensus params newRow.key.entity newRow.key.type).toInt ≤
        (agreeing newRow (store.openGrants newRow)).card) ∧
    (row.consensus = 0 → row.blockFrom = lastRow.blockFrom ∧ row.blockTo = lastRow.blockTo)

def newGrantRow (store : Store) (grant : Grant) (type : PermType) : LedgerRow :=
  store.grantRow grant type (store.getPermission ⟨grant.entity, grant.address, type⟩ true).2

theorem Live.newGrantRow_prevRow (hlive : Live store) (grant : Grant) {type : PermType}
    (htype : type ≠ MC_PTP_BLOCK_INDEX) : (store.newGrantRow grant type).prevRow =
      newestRow store.logRow (store.newGrantRow grant type).key store.row :=
  (hlive.pool.rowAt htype (hlive.showsBelow htype)).thisRow

/-- `VerifyConsensus` counts right exactly when the older rows never take back
the consensus that some number of the newest rows has. -/
theorem verifyConsensus_counts_iff (hreach : Reachable params store) (grant : Grant)
    {type : PermType} (htype : isGrantType type = true)
    (hconsensus : 1 < (store.adminConsensus params grant.entity type).toInt) :
    CountsConsensus params store (store.newGrantRow grant type)
        (store.getPermission ⟨grant.entity, grant.address, type⟩ true).2 ↔
      ∀ count, (store.adminConsensus params grant.entity type).toInt ≤
          (agreeing (store.newGrantRow grant type)
            ((store.openGrants (store.newGrantRow grant type)).take count)).card →
        (store.adminConsensus params grant.entity type).toInt ≤
          (agreeing (store.newGrantRow grant type)
            (store.openGrants (store.newGrantRow grant type))).card := by
  have hindex : type ≠ MC_PTP_BLOCK_INDEX := fun heq => by
    rw [heq] at htype
    exact absurd htype (by decide)
  have hlive := hreach.live
  have hprev := hlive.newGrantRow_prevRow grant hindex
  generalize hnew : store.newGrantRow grant type = newRow at hprev ⊢
  generalize (store.getPermission ⟨grant.entity, grant.address, type⟩ true).2 = lastRow
  have hentity : newRow.key.entity = grant.entity := by rw [← hnew]; rfl
  have hkeyType : newRow.key.type = type := by rw [← hnew]; rfl
  let marked : LedgerRow :=
    { newRow with consensus := store.adminConsensus params grant.entity type }
  have hverify : store.verifyConsensus params newRow lastRow =
      store.verifyConsensusLoop marked lastRow (store.row + 1) marked []
        (store.adminConsensus params grant.entity type).toInt := by
    unfold verifyConsensus
    rw [hentity, hkeyType, if_neg (not_le.mpr hconsensus)]
  have hcount : ∀ count, agreeing marked ((marked :: store.openRows newRow.key store.row).take count) =
      agreeing newRow ((store.openGrants newRow).take count) := by
    intro count
    cases count with
    | zero => rfl
    | succ count =>
      exact @supporters_cons_congr _ _ _ _ _ _ marked newRow rfl rfl rfl _
  have hwhole : (store.openGrants newRow).take (store.openGrants newRow).length =
      store.openGrants newRow := List.take_length
  have hmarked : marked.consensus ≠ 0 := fun hzero => by
    change store.adminConsensus params grant.entity type = 0 at hzero
    rw [hzero] at hconsensus
    exact absurd hconsensus (by decide)
  unfold CountsConsensus
  rw [hverify, hentity, hkeyType]
  have hpos : 0 < (store.adminConsensus params grant.entity type).toInt := by omega
  have hmarkedType : marked.key.type ≠ MC_PTP_BLOCK_INDEX := by rwa [← hkeyType] at hindex
  rcases hlive.verifyConsensusLoop_eq hmarkedType (store.row + 1) store.row marked [] [] _ rfl
    hprev le_rfl (Nat.lt_succ_self _) (tallied_nil _ _) hpos with
    ⟨hok, count, hreached⟩ | ⟨hok, hbelow⟩
  · rw [hok]
    constructor
    · rintro ⟨row, hrow, hiff, -⟩ _ _
      rw [← Except.ok.inj hrow] at hiff
      exact hiff.mp hmarked
    intro hkept
    refine ⟨marked, rfl, ⟨fun _ => hkept count ?_, fun _ => hmarked⟩, fun hzero =>
      absurd hzero hmarked⟩
    rw [← hcount]
    exact hreached
  rw [hok]
  have hfew : ∀ count, ((agreeing newRow ((store.openGrants newRow).take count)).card : ℤ) <
      (store.adminConsensus params grant.entity type).toInt := fun count => by
    rw [← hcount]
    exact hbelow count
  constructor
  · exact fun _ count hreached => absurd (hfew count) (not_lt.mpr hreached)
  intro _
  have hall := hfew (store.openGrants newRow).length
  rw [hwhole] at hall
  exact ⟨_, rfl, ⟨fun hne => absurd rfl hne, fun hle => absurd hall (not_lt.mpr hle)⟩,
    fun _ => ⟨rfl, rfl⟩⟩

def earlyParams : ChainParams :=
  { ChainParams.defaults with setupFirstBlocks := 1 }

def adminsBlock : Block where
  calls :=
    [.grant firstMinerGrant, .grant { firstMinerGrant with address := 0x4e, type := MC_PTP_ADMIN },
      .grant { firstMinerGrant with address := 0x4f, type := MC_PTP_ADMIN }]
  miner := firstMiner
  hash := 1

def threeAdmins : Store :=
  newStore.addBlock earlyParams adminsBlock

def fourthAdmin (admin : Hash160) (blockTo timestamp : ℕ) : Grant :=
  { firstMinerGrant with
    address := 0x50
    type := MC_PTP_ADMIN
    admin := admin
    blockTo := blockTo
    timestamp := timestamp }

/-- The first admin grants until block 100, and then, with an earlier timestamp,
until block 200. -/
def contested : Store :=
  (threeAdmins.call earlyParams (.grant (fourthAdmin firstMiner 100 10))).call earlyParams
    (.grant (fourthAdmin firstMiner 200 5))

theorem contested_reachable : Reachable earlyParams contested := by
  have hstart : Reachable earlyParams newStore := .start
  have hblock : Reachable earlyParams threeAdmins := hstart.addBlock (by decide) adminsBlock
  have hfirst : Reachable earlyParams
      (threeAdmins.call earlyParams (.grant (fourthAdmin firstMiner 100 10))) :=
    hblock.apply (.call (.grant (fourthAdmin firstMiner 100 10))) trivial
  exact hfirst.apply (.call (.grant (fourthAdmin firstMiner 200 5))) trivial

theorem contested_counts_iff : CountsConsensus earlyParams contested
        (contested.newGrantRow (fourthAdmin 0x4e 200 6) MC_PTP_ADMIN)
        (contested.getPermission ⟨nullEntity, 0x50, MC_PTP_ADMIN⟩ true).2 ↔
      ∀ count, (contested.adminConsensus earlyParams nullEntity MC_PTP_ADMIN).toInt ≤
          (agreeing (contested.newGrantRow (fourthAdmin 0x4e 200 6) MC_PTP_ADMIN)
            ((contested.openGrants
              (contested.newGrantRow (fourthAdmin 0x4e 200 6) MC_PTP_ADMIN)).take count)).card →
        (contested.adminConsensus earlyParams nullEntity MC_PTP_ADMIN).toInt ≤
          (agreeing (contested.newGrantRow (fourthAdmin 0x4e 200 6) MC_PTP_ADMIN)
            (contested.openGrants
              (contested.newGrantRow (fourthAdmin 0x4e 200 6) MC_PTP_ADMIN))).card :=
  verifyConsensus_counts_iff contested_reachable (fourthAdmin 0x4e 200 6) (by decide)
    (by decide +kernel)

/-- The second admin's grant until block 200 is in consensus, although the first
admin's latest grant is the one until block 100. -/
theorem contested_not_counts : ¬ CountsConsensus earlyParams contested
        (contested.newGrantRow (fourthAdmin 0x4e 200 6) MC_PTP_ADMIN)
        (contested.getPermission ⟨nullEntity, 0x50, MC_PTP_ADMIN⟩ true).2 := by
  rintro ⟨row, hok, hiff, -⟩
  have hmarked : (contested.verifyConsensus earlyParams
      (contested.newGrantRow (fourthAdmin 0x4e 200 6) MC_PTP_ADMIN)
      (contested.getPermission ⟨nullEntity, 0x50, MC_PTP_ADMIN⟩ true).2).map
        LedgerRow.consensus = .ok 2 := by
    decide +kernel
  rw [hok] at hmarked
  have hconsensus : row.consensus = 2 := Except.ok.inj hmarked
  have henough := hiff.mp (by rw [hconsensus]; decide)
  revert henough
  decide +kernel

end Store

end Amberchain.Permission
