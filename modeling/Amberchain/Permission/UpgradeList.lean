import Amberchain.Permission.AlikeLogs

/-!
# The list of upgrade approvals

`GetUpgradeList` walks over the database rows of the upgrade entity behind the row of the
zero address, which only says that the entity exists, and then over the mempool.
-/

namespace Amberchain.Permission

open RowChain

def MC_PFL_HAVE_PENDING : BitVec 32 := 0x01000000

/-- `mc_PermissionDetails` -/
structure PermissionDetails where
  key : PermKey
  blockFrom : ℕ
  blockTo : ℕ
  flags : BitVec 32
  lastRow : ℕ
  blockReceived : ℕ
  requiredAdmins : BitVec 32
  lastAdmin : Hash160
deriving DecidableEq

def PermKey.bytes (key : PermKey) : Bytes :=
  putLE key.entity.toNat 32 ++ putLE key.address.toNat 20 ++ putLE key.type.toNat 4

theorem PermKey.bytes_injective : Function.Injective PermKey.bytes := by
  intro key other hbytes
  obtain ⟨hfront, htype⟩ := List.append_inj hbytes (by simp [length_putLE])
  obtain ⟨hentity, haddress⟩ := List.append_inj hfront (by simp [length_putLE])
  have hread : ∀ {width size : ℕ} {left right : BitVec width}, 2 ^ width = 256 ^ size →
      putLE left.toNat size = putLE right.toNat size → left = right := by
    intro width size left right hwidth heq
    have hleft := left.isLt
    have hright := right.isLt
    rw [hwidth] at hleft hright
    have hnumbers := congrArg (fun bytes => getLE bytes size) heq
    rw [getLE_putLE_all hleft, getLE_putLE_all hright] at hnumbers
    exact BitVec.eq_of_toNat_eq hnumbers
  obtain ⟨entity, address, type⟩ := key
  obtain rfl := hread (by decide) hentity
  obtain rfl := hread (by decide) haddress
  obtain rfl := hread (by decide) htype
  rfl

def PermKey.place (key : PermKey) : List ℕ :=
  key.bytes.map BitVec.toNat

theorem PermKey.place_injective : Function.Injective PermKey.place :=
  (List.map_injective_iff.mpr fun _ _ => BitVec.eq_of_toNat_eq).comp PermKey.bytes_injective

/-- The database holds its rows in this order. -/
def PermKey.Before (key other : PermKey) : Prop :=
  key.place ≤ other.place

instance : DecidableRel PermKey.Before :=
  fun key other => inferInstanceAs (Decidable (key.place ≤ other.place))

instance : IsTrans PermKey PermKey.Before :=
  ⟨fun _ _ _ hfirst hsecond => le_trans hfirst hsecond⟩

instance : Std.Antisymm PermKey.Before :=
  ⟨fun _ _ hfirst hsecond => PermKey.place_injective (le_antisymm hfirst hsecond)⟩

instance : Std.Total PermKey.Before :=
  ⟨fun key other => le_total key.place other.place⟩

def inOrder (keys : Multiset PermKey) : List PermKey :=
  Quot.liftOn keys (List.insertionSort PermKey.Before) fun first second hperm =>
    ((List.perm_insertionSort _ first).trans
      (hperm.trans (List.perm_insertionSort _ second).symm)).eq_of_pairwise'
      (List.pairwise_insertionSort _ first) (List.pairwise_insertionSort _ second)

theorem mem_inOrder {keys : Multiset PermKey} {key : PermKey} :
    key ∈ inOrder keys ↔ key ∈ keys := by
  induction keys using Quot.inductionOn with
  | h keys => exact List.mem_insertionSort PermKey.Before

theorem replicate_zero_append_lt {numbers : List ℕ} (hsome : ∃ number ∈ numbers, number ≠ 0)
    (front back : List ℕ) : List.replicate numbers.length 0 ++ front < numbers ++ back := by
  induction numbers with
  | nil =>
    obtain ⟨_, hmem, _⟩ := hsome
    cases hmem
  | cons number numbers ih =>
    rw [List.length_cons, List.replicate_succ, List.cons_append, List.cons_append,
      List.cons_lt_cons_iff]
    by_cases hzero : number = 0
    · obtain ⟨other, hmem, hother⟩ := hsome
      rcases List.mem_cons.mp hmem with rfl | hrest
      · exact absurd hzero hother
      · exact .inr ⟨hzero.symm, ih ⟨other, hrest, hother⟩⟩
    exact .inl (Nat.pos_of_ne_zero hzero)

/-- The key of the row that `SetApproval` adds first. -/
def upgradeRootKey : PermKey :=
  ⟨upgradeEntity, 0, MC_PTP_CONNECT⟩

/-- Keys of the upgrade entity with another address come behind the first one. -/
theorem upgradeRootKey_place_lt {key : PermKey} (hentity : key.entity = upgradeEntity)
    (haddress : key.address ≠ 0) : upgradeRootKey.place < key.place := by
  have hsome : ∃ number ∈ (putLE key.address.toNat 20).map BitVec.toNat, number ≠ 0 := by
    by_contra hnone
    have hbytes : ∀ byte ∈ putLE key.address.toNat 20, byte = 0 := by
      intro byte hmem
      by_contra hne
      exact hnone ⟨byte.toNat, List.mem_map_of_mem hmem, fun hnumber =>
        hne (BitVec.eq_of_toNat_eq hnumber)⟩
    have hread := getLE_putLE_all (show key.address.toNat < 256 ^ 20 from key.address.isLt)
    rw [getLE_eq_zero hbytes] at hread
    exact haddress (BitVec.eq_of_toNat_eq hread.symm)
  have hback : (putLE 0 20).map BitVec.toNat ++
        (putLE upgradeRootKey.type.toNat 4).map BitVec.toNat <
      (putLE key.address.toNat 20).map BitVec.toNat ++
        (putLE key.type.toNat 4).map BitVec.toNat := by
    exact replicate_zero_append_lt hsome _ _
  have hplace : ∀ other : PermKey, other.place =
      (putLE other.entity.toNat 32).map BitVec.toNat ++
        ((putLE other.address.toNat 20).map BitVec.toNat ++
          (putLE other.type.toNat 4).map BitVec.toNat) := by
    intro other
    unfold PermKey.place PermKey.bytes
    rw [List.map_append, List.map_append, List.append_assoc]
  rw [hplace, hplace, hentity]
  exact List.append_left_lt hback

namespace Store

variable (params : ChainParams) (store : Store)

def listedRow (key : PermKey) (dbRow : DBRow) : PermissionDetails where
  key := key
  blockFrom := dbRow.blockFrom
  blockTo := dbRow.blockTo
  flags := dbRow.flags
  lastRow := dbRow.ledgerRow
  blockReceived := (store.ledger.getRow dbRow.ledgerRow).blockReceived
  requiredAdmins := 0
  lastAdmin := 0

def upgradeKeys : List PermKey :=
  inOrder (store.db.rows.keys.filter fun key =>
    key.entity = upgradeEntity ∧ upgradeRootKey.place < key.place).val

/-- The database part of the list.  Without the first row nothing is found. -/
def committedList (types : PermType) : List PermissionDetails :=
  if (store.db.rows.lookup upgradeRootKey).isNone then []
  else
    (store.upgradeKeys.filter fun key => types &&& key.type ≠ 0).filterMap fun key =>
      (store.db.rows.lookup key).map (store.listedRow key)

/-- One round of the mempool loop.  The flag says that no row was seen yet: the first one is
not listed. -/
def listMemPoolRow (types : PermType) (found : List PermissionDetails × Bool) (row : LedgerRow) :
    List PermissionDetails × Bool :=
  if row.key.entity ≠ upgradeEntity then found
  else if types &&& row.key.type = 0 then (found.1, false)
  else
    match found.1.findIdx? fun details => details.key = row.key with
    | some index =>
      (found.1.modify index fun details =>
        { details with
          blockFrom := row.blockFrom
          blockTo := row.blockTo
          flags := row.flags
          lastRow := row.thisRow }, found.2)
    | none =>
      (if found.2 then found.1
        else
          found.1 ++ [{
            key := row.key
            blockFrom := row.blockFrom
            blockTo := row.blockTo
            flags := row.flags
            lastRow := row.thisRow
            blockReceived := row.blockReceived
            requiredAdmins := 0
            lastAdmin := 0 }], false)

/-- `FillPermissionDetails` without a buffer for the admins: the last row of the key is
read.  On an error the rest is left as it is. -/
def fillPermissionDetails (details : PermissionDetails) : PermissionDetails :=
  let required := store.adminConsensus params details.key.entity
    (if details.key.entity = upgradeEntity then MC_PTP_UPGRADE else details.key.type)
  let details := { details with requiredAdmins := required }
  let row :=
    if store.memPoolStart ≤ details.lastRow then
      store.memPool.getD (details.lastRow - store.memPoolStart) (LedgerRow.zero ⟨0, 0, 0⟩)
    else store.ledger.getRow details.lastRow
  if details.lastRow = 0 then details
  else if details.lastRow < store.memPoolStart
      ∧ (row.key ≠ details.key ∨ row.thisRow ≠ details.lastRow) then details
  else if 0 < row.consensus.toInt then
    if required.toInt ≤ 1 then { details with lastAdmin := row.admin }
    else { details with lastAdmin := row.admin, blockReceived := row.blockReceived }
  else
    { details with
      flags := details.flags ||| MC_PFL_HAVE_PENDING
      blockReceived := row.blockReceived }

/-- `GetUpgradeList` for all upgrades -/
def getUpgradeList : List PermissionDetails :=
  let types := MC_PTP_CONNECT ||| MC_PTP_UPGRADE
  let committed :=
    (store.committedList types, (store.db.rows.lookup upgradeRootKey).isNone)
  ((store.memPool.foldl (listMemPoolRow types) committed).1).map
    (store.fillPermissionDetails params)

structure ShowsNewest (row : ℕ → LedgerRow) (base : ℕ) (details : PermissionDetails) :
    Prop where
  lastRow : details.lastRow = newestRow row details.key base
  ne_zero : details.lastRow ≠ 0
  blockFrom : details.blockFrom = (row details.lastRow).blockFrom
  blockTo : details.blockTo = (row details.lastRow).blockTo
  blockReceived : details.blockReceived = (row details.lastRow).blockReceived

variable {params store}

@[simp]
theorem fillPermissionDetails_key (details : PermissionDetails) :
    (store.fillPermissionDetails params details).key = details.key := by
  unfold fillPermissionDetails
  dsimp only
  generalize store.adminConsensus params _ _ = required
  split_ifs <;> rfl

/-- Of a committed row, only the height it was received at is filled in again. -/
theorem fillPermissionDetails_eq (params : ChainParams) {details : PermissionDetails}
    (hlt : details.lastRow < store.memPoolStart) : ∃ flags required received admin,
    store.fillPermissionDetails params details = { details with
          flags := flags
          requiredAdmins := required
          blockReceived := received
          lastAdmin := admin } ∧ (received = details.blockReceived ∨
        received = (store.ledger.getRow details.lastRow).blockReceived) := by
  unfold fillPermissionDetails
  dsimp only
  rw [if_neg (not_le.mpr hlt)]
  generalize store.adminConsensus params _ _ = required
  split_ifs
  · exact ⟨_, _, _, _, rfl, .inl rfl⟩
  · exact ⟨_, _, _, _, rfl, .inl rfl⟩
  · exact ⟨_, _, _, _, rfl, .inl rfl⟩
  · exact ⟨_, _, _, _, rfl, .inr rfl⟩
  exact ⟨_, _, _, _, rfl, .inr rfl⟩

theorem ShowsNewest.fill {base : ℕ} {details : PermissionDetails}
    (hshows : ShowsNewest store.ledger.getRow base details) (hle : base ≤ store.memPoolStart) :
    ShowsNewest store.ledger.getRow base (store.fillPermissionDetails params details) := by
  have hnone : newestRow store.ledger.getRow details.key base ≠ 0 :=
    fun hzero => hshows.ne_zero (hshows.lastRow.trans hzero)
  have hbelow : details.lastRow < base := hshows.lastRow ▸ lastRow_lt hnone
  obtain ⟨_, _, received, _, heq, hreceived⟩ :=
    fillPermissionDetails_eq params (lt_of_lt_of_le hbelow hle)
  rw [heq]
  refine ⟨hshows.lastRow, hshows.ne_zero, hshows.blockFrom, hshows.blockTo, ?_⟩
  rcases hreceived with hkept | hread
  · exact hkept.trans hshows.blockReceived
  exact hread

theorem getUpgradeList_of_empty (hempty : store.memPool = []) : store.getUpgradeList params =
      (store.committedList (MC_PTP_CONNECT ||| MC_PTP_UPGRADE)).map
        (store.fillPermissionDetails params) := by
  unfold getUpgradeList
  rw [hempty]
  rfl

theorem Live.listedRow_shows (hlive : Live store) {key : PermKey}
    (hgrant : isGrantType key.type = true) {dbRow : DBRow}
    (hlookup : store.db.rows.lookup key = some dbRow) :
    ShowsNewest store.ledger.getRow store.memPoolStart (store.listedRow key dbRow) := by
  have htype : key.type ≠ MC_PTP_BLOCK_INDEX := by
    intro hindex
    rw [hindex] at hgrant
    exact absurd hgrant (by decide)
  obtain ⟨hnone, hvisible⟩ := hlive.files.index.rows.lookup_eq_some htype hlookup
  have hledgerRow := congrArg DBRow.ledgerRow hvisible
  have hfrom := congrArg DBRow.blockFrom hvisible
  have hto := congrArg DBRow.blockTo hvisible
  simp only [visible_blockFrom, visible_blockTo, visible_ledgerRow, LedgerRow.toDBRow]
    at hledgerRow hfrom hto
  refine ⟨hledgerRow, ?_, ?_, ?_, rfl⟩
  · show dbRow.ledgerRow ≠ 0
    rwa [hledgerRow]
  · show dbRow.blockFrom = _
    rw [hfrom]
    exact congrArg (fun i => (store.ledger.getRow i).blockFrom) hledgerRow.symm
  show dbRow.blockTo = _
  rw [hto]
  exact congrArg (fun i => (store.ledger.getRow i).blockTo) hledgerRow.symm

/-- Every listed approval shows the newest row of its key. -/
theorem Live.shows_of_mem (hlive : Live store) (hempty : store.memPool = [])
    {details : PermissionDetails} (hmem : details ∈ store.getUpgradeList params)
    (htype : details.key.type = MC_PTP_UPGRADE) : details.key.entity = upgradeEntity ∧
      ShowsNewest store.ledger.getRow store.memPoolStart details := by
  rw [getUpgradeList_of_empty hempty, List.mem_map] at hmem
  obtain ⟨listed, hlisted, rfl⟩ := hmem
  unfold committedList at hlisted
  split at hlisted
  · cases hlisted
  rw [List.mem_filterMap] at hlisted
  obtain ⟨key, hkey, hlookup⟩ := hlisted
  rw [Option.map_eq_some_iff] at hlookup
  obtain ⟨dbRow, hlookup, rfl⟩ := hlookup
  have hentity : key.entity = upgradeEntity := by
    have hsorted := (List.mem_filter.mp hkey).1
    unfold upgradeKeys at hsorted
    rw [mem_inOrder, Finset.mem_val, Finset.mem_filter] at hsorted
    exact hsorted.2.1
  rw [fillPermissionDetails_key] at htype ⊢
  have hgrant : isGrantType key.type = true := by
    rw [show key.type = MC_PTP_UPGRADE from htype]
    decide
  exact ⟨hentity, (hlive.listedRow_shows hgrant hlookup).fill le_rfl⟩

/-- Every approval is listed once the upgrade entity has its first row. -/
theorem Live.mem_getUpgradeList (hlive : Live store) (hempty : store.memPool = [])
    (hroot : newestRow store.ledger.getRow upgradeRootKey store.memPoolStart ≠ 0)
    {key : PermKey} (hentity : key.entity = upgradeEntity) (haddress : key.address ≠ 0)
    (htype : key.type = MC_PTP_UPGRADE)
    (hrow : newestRow store.ledger.getRow key store.memPoolStart ≠ 0) :
    ∃ details ∈ store.getUpgradeList params, details.key = key := by
  have hlookup : ∀ {key : PermKey}, key.type ≠ MC_PTP_BLOCK_INDEX →
      newestRow store.ledger.getRow key store.memPoolStart ≠ 0 →
      ∃ dbRow, store.db.rows.lookup key = some dbRow := by
    intro key hindex hnewest
    rcases hfound : store.db.rows.lookup key with _ | dbRow
    · exact absurd (hlive.files.index.rows.lookup_eq_none hindex hfound) hnewest
    · exact ⟨dbRow, rfl⟩
  obtain ⟨rootRow, hrootRow⟩ := hlookup (by decide) hroot
  obtain ⟨dbRow, hdbRow⟩ := hlookup (by rw [htype]; decide) hrow
  have hkeys : key ∈ store.upgradeKeys := by
    unfold upgradeKeys
    rw [mem_inOrder, Finset.mem_val, Finset.mem_filter]
    refine ⟨?_, hentity, upgradeRootKey_place_lt hentity haddress⟩
    rw [Finmap.mem_keys, ← Finmap.lookup_isSome, hdbRow]
    rfl
  refine ⟨store.fillPermissionDetails params (store.listedRow key dbRow), ?_, by simp [listedRow]⟩
  rw [getUpgradeList_of_empty hempty]
  refine List.mem_map_of_mem ?_
  unfold committedList
  rw [hrootRow, if_neg (by simp), List.mem_filterMap]
  refine ⟨key, List.mem_filter.mpr ⟨hkeys, ?_⟩, by rw [hdbRow]; rfl⟩
  rw [htype]
  decide

end Store

end Amberchain.Permission
