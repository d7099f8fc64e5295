import Amberchain.Entity.Indexed

/-!
# Sound runs

Which steps keep the index right.  A follow-on of a pending asset must find it at
the mempool index that the asset names, and its details must not carry a key of
another entity; a commit must not fail behind rows that are in its batch already.
-/

namespace Amberchain.Entity

open LinkedLog

namespace AssetDB

def DetailsFit (params : ChainParams) (script : Bytes) : Prop :=
  script.length ≤ MC_ENT_SCRIPT_ALLOC_SIZE ∧
    ∀ name ∈ scriptName params script, name.length ≤ MC_ENT_NAME_BUFFER_SIZE

/-- The size of `stream_name` without its terminator. -/
def MC_ENT_MAX_NAME_SIZE : ℕ := 32

/-- A name that `InsertEntity` copies fits into its buffer. -/
def StreamNameFits (script : Bytes) : Prop :=
  ∀ name ∈ Details.findSpecialParam script Details.MC_ENT_SPRM_NAME,
    name.getLast? = some 0 ∨ name.length ≤ MC_ENT_MAX_NAME_SIZE

/-- The asset of a follow-on is confirmed, or stands at the mempool index that its
first position names. -/
def FollowsOwnAsset (assets : AssetDB) (originalTxid : Hash256) : Prop :=
  ∀ original, assets.getEntity (txidKey originalTxid) = some original →
    original.firstPos < 0 →
      assets.seekMemPool (txidKey originalTxid) = some (-original.firstPos - 1).toNat

def CarriesOwnKeys (params : ChainParams) (tracked : EntityKey → Prop) (assets : AssetDB)
    (issue : Issue) (originalTxid : Hash256) : Prop :=
  ∀ key ∈ (assets.followOnRow issue 0 EntityRow.zero).otherKeys params, tracked key →
    ∀ other, assets.getEntity key = some other → other.key = txidKey originalTxid

def CanBeWritten (row : EntityRow) : Prop :=
  0 ≤ row.offset ∧ row.script.length ≤ MC_ENT_SCRIPT_ALLOC_SIZE

/-- All rows of the mempool can be written, or already the first one cannot. -/
def CommitsWhole (assets : AssetDB) : Prop :=
  (∀ row ∈ assets.memPool, CanBeWritten row) ∨
    ∃ row ∈ assets.memPool.head?, ¬ CanBeWritten row

def Sound (params : ChainParams) (tracked : EntityKey → Prop) (assets : AssetDB) : Op → Prop
  | .insertEntity issue entityType =>
    DetailsFit params (assets.entityRow issue entityType).script ∧ StreamNameFits issue.script
  | .insertAsset issue quantity name multiple =>
    DetailsFit params (assets.assetRow params issue quantity name multiple).script
  | .insertAssetFollowOn issue _ originalTxid =>
    DetailsFit params (issue.specialScript ++ issue.script) ∧ assets.FollowsOwnAsset originalTxid ∧
      assets.CarriesOwnKeys params tracked issue originalTxid
  | .commit => assets.CommitsWhole
  | _ => True

structure Represents (register : Register) (log : Log) (pending : List Pending) : Prop where
  confirmed : register.confirmed = acceptedLog log
  pending : register.pending = pending.map Pending.accepted

variable {params : ChainParams} {tracked : EntityKey → Prop} {log : Log}
  {pending before after : List Pending} {assets : AssetDB} {register : Register}

/-- The rows of a new entity join the queue when all its keys are free. -/
theorem Indexed.insertKeys (hassets : Indexed params tracked assets log pending)
    {row : EntityRow} {txid : Hash256} (hkey : row.key = txidKey txid)
    (hblock : row.block = assets.block + 1) (hchain : row.chainPos < 0) (hneg : row.firstPos < 0)
    (hfirst : row.firstPos = -(assets.memPool.length + 1) ∨ row.quantity = 0)
    (hfree : ∀ keyRow ∈ keyRows params row, assets.getEntity keyRow.key = none) :
    Indexed params tracked { assets with memPool := assets.memPool ++ keyRows params row } log
      (pending ++ [⟨row, txid⟩]) := by
  have htype : row.key.type.isFollowOn = false := by
    rw [hkey]
    rfl
  have hrows : (Pending.mk row txid).rows params = keyRows params row := by
    unfold Pending.rows
    rw [if_neg (by rw [htype]; exact Bool.false_ne_true)]
  refine ⟨?_, hassets.batch, hassets.pos, hassets.ordered, hassets.index, ?_, ?_⟩
  · refine hassets.backed.adds (.inr ⟨keyRows params row, ⟨?_, fun _ => ⟨row, rfl, ?_⟩⟩, rfl⟩)
    · intro keyRow hmem
      obtain ⟨key, _, rfl⟩ := List.mem_map.mp hmem
      exact hblock
    rw [hkey]
    rfl
  · rw [poolRows_append, poolRows_singleton, hrows, hassets.memPool]
  refine hassets.queue.append ⟨hchain, .inl ⟨hkey, hneg, ?_⟩, ?_, ?_⟩
  · rw [← hassets.memPool]
    exact hfirst
  · intro key hmem htracked
    obtain ⟨keyRow, hkeyRow, rfl⟩ := (Pending.mk row txid).mem_rows_key.mpr hmem
    rw [hrows] at hkeyRow
    exact hassets.fresh_of_getEntity htracked (hfree keyRow hkeyRow)
  intro hfollow
  rw [show (Pending.mk row txid).row.key = txidKey txid from hkey] at hfollow
  cases hfollow

/-- An insertion of keys leaves the database alone, or finds all keys free. -/
theorem insertKeys_cases (row : EntityRow) (updateMempool : Bool) :
    ((assets.insertKeys params row updateMempool).1 = assets ∧
        ((assets.insertKeys params row updateMempool).2 = none → updateMempool = false)) ∨
      ((assets.insertKeys params row updateMempool) =
          ({ assets with memPool := assets.memPool ++ keyRows params row }, none) ∧
        updateMempool = true ∧
        ∀ keyRow ∈ keyRows params row, assets.getEntity keyRow.key = none) := by
  unfold AssetDB.insertKeys
  dsimp only
  split
  · exact .inl ⟨rfl, fun hnone => by cases hnone⟩
  rename_i hfree
  cases updateMempool with
  | false => exact .inl ⟨rfl, fun _ => rfl⟩
  | true =>
    refine .inr ⟨rfl, rfl, fun keyRow hkeyRow => ?_⟩
    rw [List.any_eq_true] at hfree
    push Not at hfree
    exact Option.not_isSome_iff_eq_none.mp (hfree keyRow hkeyRow)

/-- `InsertEntity` checks the script of an upgrade, and inserts the keys. -/
theorem insertEntity_cases (issue : Issue) (entityType : ℕ) :
    ((assets.insertEntity params issue entityType).1 = assets ∧
        ((assets.insertEntity params issue entityType).2.toBool = true →
          issue.updateMempool = false)) ∨ ((assets.insertEntity params issue entityType).1 =
          { assets with
            memPool := assets.memPool ++ keyRows params (assets.entityRow issue entityType) } ∧
        (assets.insertEntity params issue entityType).2.toBool = true ∧ issue.updateMempool = true ∧
        ∀ keyRow ∈ keyRows params (assets.entityRow issue entityType),
          assets.getEntity keyRow.key = none) := by
  have hkeys := @insertKeys_cases params assets (assets.entityRow issue entityType)
    issue.updateMempool
  unfold AssetDB.insertEntity
  dsimp only
  split
  · exact .inl ⟨rfl, fun hfalse => by cases hfalse⟩
  rcases hkeys with ⟨hsame, hquiet⟩ | ⟨hinsert, hupdate, hfree⟩
  · split
    · rename_i hresult
      rw [hresult] at hsame
      exact .inl ⟨hsame, fun hfalse => by cases hfalse⟩
    rename_i hresult
    rw [hresult] at hsame hquiet
    exact .inl ⟨hsame, fun _ => hquiet rfl⟩
  rw [hinsert]
  exact .inr ⟨rfl, rfl, hupdate, hfree⟩

/-- The search for an entity by its txid stops at its first row. -/
theorem Indexed.seekMemPool_eq (hassets : Indexed params tracked assets log pending)
    {issue : Pending} (hpending : pending = before ++ issue :: after)
    (htracked : tracked issue.row.key) :
    assets.seekMemPool issue.row.key = some (poolRows params before).length := by
  have hwaits := hassets.queue before issue after hpending
  obtain ⟨_, hbefore⟩ := hwaits.fresh _ issue.row.key_mem_keys htracked
  obtain ⟨others, hrows, _⟩ := issue.rows_eq params
  unfold seekMemPool
  rw [hassets.memPool, hpending, poolRows_append, poolRows_cons, List.findIdx?_append,
    findIdx?_poolRows_eq_none hbefore, hrows, List.cons_append, List.findIdx?_cons]
  simp

/-- A pending asset that may have follow-ons stands at the mempool index that it
names. -/
theorem Indexed.firstPos_of_followsOwn (hassets : Indexed params tracked assets log pending)
    (hcovers : ∀ key : EntityKey, key.type.isTxid = true → tracked key) {issue : Pending}
    {originalTxid : Hash256} (hpending : pending = before ++ issue :: after)
    (hkey : issue.row.key = txidKey originalTxid) (hown : assets.FollowsOwnAsset originalTxid) :
    issue.row.firstPos = -((poolRows params before).length + 1) := by
  have htracked : tracked issue.row.key := hcovers _ (by rw [hkey]; rfl)
  have hfound := hassets.getEntity_pending hpending htracked issue.row.key_mem_keys
  have hneg : issue.row.firstPos < 0 := by
    rcases (hassets.queue before issue after hpending).kind with
      ⟨_, hneg, _⟩ | ⟨htype, _⟩ | ⟨htype, _⟩
    · exact hneg
    · rw [hkey] at htype
      cases htype
    rw [hkey] at htype
    cases htype
  rw [hkey] at hfound
  have hseek := hown issue.row hfound hneg
  rw [← hkey, hassets.seekMemPool_eq hpending htracked] at hseek
  have hindex := Option.some.inj hseek
  omega

/-- `InsertAssetFollowOn` leaves the database alone, or finds an asset that may have
the follow-on. -/
theorem insertAssetFollowOn_cases (issue : Issue) (quantity : BitVec 64) (originalTxid : Hash256) :
    ((assets.insertAssetFollowOn params issue quantity originalTxid).1 = assets ∧
        ((assets.insertAssetFollowOn params issue quantity originalTxid).2 = none →
          issue.updateMempool = false)) ∨
      ∃ original, assets.getEntity (txidKey originalTxid) = some original ∧
        assets.checkFollowOn params original quantity = none ∧
        assets.getEntity (followOnKey issue.txid) = none ∧ issue.updateMempool = true ∧
        assets.insertAssetFollowOn params issue quantity originalTxid = ({ assets with
              memPool := assets.memPool ++ [assets.followOnRow issue quantity original] },
            none) := by
  unfold AssetDB.insertAssetFollowOn
  cases hfound : assets.getEntity (txidKey originalTxid) with
  | none => exact .inl ⟨rfl, fun hnone => by cases hnone⟩
  | some original =>
    dsimp only
    cases hcheck : assets.checkFollowOn params original quantity with
    | some err => exact .inl ⟨rfl, fun hnone => by cases hnone⟩
    | none =>
      by_cases htaken : (assets.getEntity (assets.followOnRow issue quantity original).key).isSome
      · rw [if_pos htaken]
        exact .inl ⟨rfl, fun hnone => by cases hnone⟩
      rw [if_neg htaken]
      cases hupdate : issue.updateMempool with
      | false => exact .inl ⟨rfl, fun _ => rfl⟩
      | true =>
        exact .inr ⟨original, rfl, hcheck, Option.not_isSome_iff_eq_none.mp htaken, rfl, rfl⟩

/-- A follow-on that the database accepts joins the queue. -/
theorem Indexed.insertFollowOn (hassets : Indexed params tracked assets log pending)
    (hcovers : ∀ key : EntityKey, key.type.isTxid = true → tracked key) {issue : Issue}
    {quantity : BitVec 64} {originalTxid : Hash256} {original : EntityRow}
    (hfound : assets.getEntity (txidKey originalTxid) = some original)
    (hown : assets.FollowsOwnAsset originalTxid)
    (hcarries : assets.CarriesOwnKeys params tracked issue originalTxid)
    (hfree : assets.getEntity (followOnKey issue.txid) = none) : Indexed params tracked
      { assets with memPool := assets.memPool ++ [assets.followOnRow issue quantity original] } log
      (pending ++ [⟨assets.followOnRow issue quantity original, originalTxid⟩]) := by
  have htracked : tracked (txidKey originalTxid) := hcovers _ rfl
  refine ⟨?_, hassets.batch, hassets.pos, hassets.ordered, hassets.index, ?_, ?_⟩
  · refine hassets.backed.adds (.inr ⟨[_], ⟨?_, fun _ => ⟨_, rfl, rfl⟩⟩, rfl⟩)
    intro row hrow
    rw [List.mem_singleton.mp hrow]
    rfl
  · rw [poolRows_append, hassets.memPool]
    rfl
  refine hassets.queue.append ⟨by show (-1 : ℤ) < 0; omega, ?_, ?_, ?_⟩
  · rcases hassets.getEntity_cases htracked with
      ⟨entry, hentry, hkey, hget⟩ | ⟨first, start, rest, hsplit, hkey, hget⟩ | ⟨hnone, _⟩
    · rw [hfound] at hget
      cases hget
      have hstartKey := (EntityRow.eq_of_isTxid hkey rfl).symm
      have htype : entry.row.key.type = .txid := by rw [hstartKey]; rfl
      have hpos := hassets.ordered.firstPos_eq hentry htype
      refine .inr (.inl ⟨rfl, entry, hentry, hstartKey, hpos.symm, ?_⟩)
      show lastOfChain entry.row.firstPos assets.memPool assets.pos _ = _
      rw [hpos, hassets.memPool]
    · rw [hfound] at hget
      cases hget
      have hstartKey := (EntityRow.eq_of_isTxid hkey rfl).symm
      have hplace := hassets.firstPos_of_followsOwn hcovers hsplit hstartKey hown
      exact .inr (.inr ⟨rfl, first, start, rest, hsplit, hstartKey, hplace, rfl⟩)
    rw [hfound] at hnone
    cases hnone
  · intro key hkey htrackedKey
    rw [List.mem_singleton.mp hkey] at htrackedKey ⊢
    exact hassets.fresh_of_getEntity htrackedKey hfree
  intro _ key hkey htrackedKey
  have hleads := hcarries key hkey htrackedKey
  refine ⟨fun entry hentry hmem => ?_, fun other hother hmem => ?_⟩
  · have hget := hassets.getEntity_log hentry htrackedKey hmem
    have hother := hleads _ hget
    exact hother
  obtain ⟨first, rest, hsplit⟩ := List.append_of_mem hother
  exact hleads _ (hassets.getEntity_pending hsplit htrackedKey hmem)

theorem Represents.accept (hregister : Represents register log pending) (issue : Pending) :
    Represents (register.accept issue.accepted) log (pending ++ [issue]) := by
  refine ⟨hregister.confirmed, ?_⟩
  show register.pending ++ [issue.accepted] = _
  rw [hregister.pending, List.map_append, List.map_singleton]

theorem Indexed.step_insertEntity (hassets : Indexed params tracked assets log pending)
    (hregister : Represents register log pending) (issue : Issue) (entityType : ℕ) :
    ∃ pending', Indexed params tracked (assets.insertEntity params issue entityType).1 log pending' ∧
      Represents (register.after params assets (.insertEntity issue entityType)) log pending' := by
  unfold Register.after
  dsimp only
  rcases @insertEntity_cases params assets issue entityType with
    ⟨hsame, hquiet⟩ | ⟨hinsert, haccepted, hupdate, hfree⟩
  · refine ⟨pending, by rw [hsame]; exact hassets, ?_⟩
    rw [if_neg fun hboth => Bool.false_ne_true ((hquiet hboth.1).symm.trans hboth.2)]
    exact hregister
  have hnext := @Indexed.insertKeys _ _ _ _ _ hassets (assets.entityRow issue entityType) _ rfl rfl
    (by show (-1 : ℤ) < 0; omega) (by show (-1 : ℤ) < 0; omega) (.inr rfl) hfree
  refine ⟨pending ++ [⟨assets.entityRow issue entityType, issue.txid⟩], ?_, ?_⟩
  · rw [hinsert]
    exact hnext
  rw [if_pos ⟨haccepted, hupdate⟩]
  exact hregister.accept ⟨assets.entityRow issue entityType, issue.txid⟩

theorem Indexed.step_insertAsset (hassets : Indexed params tracked assets log pending)
    (hregister : Represents register log pending) (issue : Issue) (quantity : BitVec 64)
    (name : Bytes) (multiple : BitVec 32) : ∃ pending', Indexed params tracked
        (assets.insertAsset params issue quantity name multiple).1 log pending' ∧
      Represents (register.after params assets (.insertAsset issue quantity name multiple)) log
        pending' := by
  have hcases := @insertKeys_cases params assets
    (assets.assetRow params issue quantity name multiple) issue.updateMempool
  unfold Register.after
  dsimp only
  unfold AssetDB.insertAsset
  rcases hcases with ⟨hsame, hquiet⟩ | ⟨hinsert, hupdate, hfree⟩
  · refine ⟨pending, by rw [hsame]; exact hassets, ?_⟩
    rw [if_neg fun hboth => Bool.false_ne_true ((hquiet hboth.1).symm.trans hboth.2)]
    exact hregister
  have hnext := @Indexed.insertKeys _ _ _ _ _ hassets
    (assets.assetRow params issue quantity name multiple) _ rfl rfl
    (by show (-1 : ℤ) < 0; omega)
    (by show -((assets.memPool.length : ℤ) + 1) < 0; omega) (.inl rfl) hfree
  refine ⟨pending ++ [⟨assets.assetRow params issue quantity name multiple, issue.txid⟩], ?_, ?_⟩
  · rw [hinsert]
    exact hnext
  rw [hinsert, if_pos ⟨rfl, hupdate⟩]
  exact hregister.accept ⟨assets.assetRow params issue quantity name multiple, issue.txid⟩

theorem Indexed.step_insertAssetFollowOn (hassets : Indexed params tracked assets log pending)
    (hcovers : ∀ key : EntityKey, key.type.isTxid = true → tracked key)
    (hregister : Represents register log pending) (issue : Issue) (quantity : BitVec 64)
    (originalTxid : Hash256)
    (hsound : Sound params tracked assets (.insertAssetFollowOn issue quantity originalTxid)) :
    ∃ pending', Indexed params tracked
        (assets.insertAssetFollowOn params issue quantity originalTxid).1 log pending' ∧
      Represents (register.after params assets (.insertAssetFollowOn issue quantity originalTxid))
        log pending' := by
  obtain ⟨_, hown, hcarries⟩ := hsound
  unfold Register.after
  dsimp only
  rcases @insertAssetFollowOn_cases params assets issue quantity originalTxid with
    ⟨hsame, hquiet⟩ | ⟨original, hfound, _, hfree, hupdate, hinsert⟩
  · refine ⟨pending, by rw [hsame]; exact hassets, ?_⟩
    rw [if_neg fun hboth => Bool.false_ne_true ((hquiet hboth.1).symm.trans hboth.2)]
    exact hregister
  refine ⟨_, by
    rw [hinsert]
    exact hassets.insertFollowOn hcovers hfound hown hcarries hfree, ?_⟩
  rw [hinsert, if_pos ⟨rfl, hupdate⟩]
  exact hregister.accept ⟨assets.followOnRow issue quantity original, originalTxid⟩

end AssetDB

end Amberchain.Entity
