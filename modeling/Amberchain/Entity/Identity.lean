import Amberchain.Entity.Undo

/-!
# Whom a key leads to

Every recorded entity is found as itself under its txid, its short txid, its
reference and its name, so that no two of them share one.
-/

namespace Amberchain.Entity

theorem bytesKey_take (bytes : Bytes) {size : ℕ} (hsize : MC_ENT_KEY_SIZE ≤ size) :
    bytesKey (bytes.take size) = bytesKey bytes := by
  unfold bytesKey getLE
  rw [List.take_take, Nat.min_eq_left hsize]

theorem bytesKey_append_zero (bytes : Bytes) {zeros : Bytes} (hzero : ∀ byte ∈ zeros, byte = 0) :
    bytesKey (bytes ++ zeros) = bytesKey bytes := by
  have hsame : ∀ size, getLE (bytes ++ zeros) size = getLE bytes size := by
    induction bytes with
    | nil =>
      intro size
      rw [List.nil_append, getLE_eq_zero hzero, getLE_eq_zero fun _ hmem =>
        absurd hmem List.not_mem_nil]
    | cons byte rest ih =>
      intro size
      cases size with
      | zero => rfl
      | succ size => rw [List.cons_append, getLE_cons, getLE_cons, ih]
  unfold bytesKey
  rw [hsame]

/-- There is nothing but NUL bytes behind the first one. -/
def PlainName (name : Bytes) : Prop :=
  ∀ byte ∈ name.dropWhile fun byte => byte ≠ 0, byte = 0

theorem nameKey_eq {name text : Bytes} (hplain : PlainName name)
    (hsame : Details.lowerCase text = Details.lowerCase (AssetDB.cString name)) :
    nameKey (Details.lowerCase text) =
      nameKey ((Details.lowerCase name).take MC_ENT_NAME_BUFFER_SIZE) := by
  have hsplit : Details.lowerCase name = Details.lowerCase (AssetDB.cString name) ++
      Details.lowerCase (name.dropWhile fun byte => byte ≠ 0) := by
    unfold Details.lowerCase AssetDB.cString
    rw [← List.map_append, List.takeWhile_append_dropWhile]
  have hzero : ∀ byte ∈ Details.lowerCase (name.dropWhile fun byte => byte ≠ 0), byte = 0 := by
    intro byte hbyte
    obtain ⟨old, hold, rfl⟩ := List.mem_map.mp hbyte
    rw [hplain old hold]
    rfl
  unfold nameKey
  rw [bytesKey_take _ (by decide), hsplit, bytesKey_append_zero _ hzero, hsame]

namespace AssetDB

def LeadsToIssue (found : Option EntityRow) (issue : Accepted) : Prop :=
  found.map EntityRow.key = some issue.key

/-- The entity is found as itself, whichever way one looks.  Letter case does not
matter in names. -/
structure FoundAs (params : ChainParams) (assets : AssetDB) (issue : Accepted) : Prop where
  byTxID : LeadsToIssue (assets.findEntityByTxID issue.key.key) issue
  byShortTxID : LeadsToIssue (assets.findEntityByShortTxID (shortTxid issue.key.key)) issue
  byRef : ∀ ref, issue.row.ref = some ref → LeadsToIssue (assets.findEntityByRef ref) issue
  byName : ∀ name ∈ scriptName params issue.script, ∀ text,
    Details.lowerCase text = Details.lowerCase (cString name) →
      LeadsToIssue (assets.findEntityByName text) issue

/-- Two entities have something in common by which they are found. -/
def ShareIdentifier (params : ChainParams) (issue other : Accepted) : Prop :=
  shortTxid issue.key.key = shortTxid other.key.key ∨
    (∃ ref, issue.row.ref = some ref ∧ other.row.ref = some ref) ∨
    ∃ name ∈ scriptName params issue.script, ∃ same ∈ scriptName params other.script,
      Details.lowerCase (cString name) = Details.lowerCase (cString same)

structure Identified (params : ChainParams) (assets : AssetDB) (register : Register) : Prop where
  found : ∀ issue ∈ register.issues, issue.isGenesis = true → FoundAs params assets issue
  distinct : ∀ issue ∈ register.issues, issue.isGenesis = true → ∀ other ∈ register.issues,
    other.isGenesis = true → ShareIdentifier params issue other → issue.key = other.key

def NamesPlainly (params : ChainParams) (assets : AssetDB) : Op → Prop
  | .insertEntity issue entityType =>
    ∀ stored ∈ scriptName params (assets.entityRow issue entityType).script, PlainName stored
  | .insertAsset issue quantity name multiple =>
    ∀ stored ∈ scriptName params (assets.assetRow params issue quantity name multiple).script,
      PlainName stored
  | _ => True

def KeepsIdentity (params : ChainParams) (assets : AssetDB) (op : Op) : Prop :=
  Sound params (fun _ => True) assets op ∧ NamesPlainly params assets op

variable {params : ChainParams} {log : Log} {pending : List Pending} {assets : AssetDB}
  {register : Register} {issue other : Accepted}

theorem LeadsToIssue.key_eq {found : Option EntityRow} (hissue : LeadsToIssue found issue)
    (hother : LeadsToIssue found other) : issue.key = other.key :=
  Option.some.inj (hissue.symm.trans hother)

theorem FoundAs.key_eq (hissue : FoundAs params assets issue) (hother : FoundAs params assets other)
    (hshare : ShareIdentifier params issue other) : issue.key = other.key := by
  rcases hshare with hshort | ⟨ref, href, hsame⟩ | ⟨name, hname, same, hsame, htext⟩
  · have hleads := hissue.byShortTxID
    rw [hshort] at hleads
    exact hleads.key_eq hother.byShortTxID
  · exact (hissue.byRef ref href).key_eq (hother.byRef ref hsame)
  exact (hissue.byName name hname (cString name) rfl).key_eq
    (hother.byName same hsame (cString name) htext)

section

variable (hassets : Indexed params (fun _ => True) assets log pending)
  (hregister : Represents register log pending) (hissue : issue ∈ register.issues)

include hassets hregister hissue

theorem Indexed.leadsToIssue
    {key : EntityKey} (hkey : key ∈ issue.keys params) :
    LeadsToIssue (assets.getEntity key) issue := by
  unfold Register.issues at hissue
  rw [hregister.confirmed, hregister.pending] at hissue
  rcases List.mem_append.mp hissue with hlog | hpending
  · obtain ⟨entry, hentry, rfl⟩ := List.mem_map.mp hlog
    rw [hassets.getEntity_log hentry trivial hkey]
    rfl
  obtain ⟨waiting, hwaiting, rfl⟩ := List.mem_map.mp hpending
  obtain ⟨before, after, hsplit⟩ := List.append_of_mem hwaiting
  rw [hassets.getEntity_pending hsplit trivial hkey]
  rfl

theorem Indexed.foundAs
    (hgenesis : issue.isGenesis = true)
    (hplain : ∀ name ∈ scriptName params issue.script, PlainName name) :
    FoundAs params assets issue := by
  have htype : issue.key.type = .txid := of_decide_eq_true hgenesis
  have hkeys : issue.keys params = issue.key :: issue.row.otherKeys params := by
    show issue.row.keys params = _
    unfold EntityRow.keys
    rw [show issue.row.key.type = .txid from htype]
    rfl
  have hleads : ∀ key ∈ issue.row.otherKeys params, LeadsToIssue (assets.getEntity key) issue :=
    fun key hkey => hassets.leadsToIssue hregister hissue
      (by rw [hkeys]; exact .tail _ hkey)
  unfold EntityRow.otherKeys at hleads
  refine ⟨?_, hleads _ ?_, fun ref href => hleads _ ?_, fun name hname text htext => ?_⟩
  · have hself := hassets.leadsToIssue hregister hissue (by rw [hkeys]; exact .head _)
    have hkey : txidKey issue.key.key = issue.key := by
      unfold txidKey
      rw [← htype]
    rw [← hkey] at hself
    obtain ⟨row, hfound, hrow⟩ := Option.map_eq_some_iff.mp hself
    unfold LeadsToIssue
    rw [findEntityByTxID_of_getEntity hfound, Option.map_some, hrow]
  · exact List.mem_append_left _ (.head _)
  · rw [href]
    exact List.mem_append_left _ (.tail _ (.head _))
  unfold findEntityByName
  rw [nameKey_eq (hplain name hname) htext]
  refine hleads _ (List.mem_append_right _ ?_)
  have hrow : issue.row.name params =
      some ((Details.lowerCase name).take MC_ENT_NAME_BUFFER_SIZE) := by
    unfold EntityRow.name
    rw [show scriptName params issue.row.script = some name from hname]
    rfl
  rw [hrow]
  exact .head _

end

def RecordsPlainly (params : ChainParams) (register : Register) : Prop :=
  ∀ issue ∈ register.issues, issue.isGenesis = true →
    ∀ name ∈ scriptName params issue.script, PlainName name

theorem RecordsPlainly.accept (hplain : RecordsPlainly params register)
    (hnew : issue.isGenesis = true → ∀ name ∈ scriptName params issue.script, PlainName name) :
    RecordsPlainly params (register.accept issue) := by
  intro other hother
  rcases List.mem_append.mp hother with hconfirmed | hpending
  · exact hplain other (List.mem_append_left _ hconfirmed)
  rcases List.mem_append.mp hpending with hold | hsame
  · exact hplain other (List.mem_append_right _ hold)
  rw [List.mem_singleton.mp hsame]
  exact hnew

theorem RecordsPlainly.of_subset {next : Register} (hplain : RecordsPlainly params register)
    (hissues : ∀ issue ∈ next.issues, issue ∈ register.issues) : RecordsPlainly params next :=
  fun issue hissue => hplain issue (hissues issue hissue)

theorem mem_confirm (hissue : issue ∈ register.confirm.issues) : issue ∈ register.issues := by
  unfold Register.issues Register.confirm at *
  simp only [List.mem_append, List.mem_reverse, List.not_mem_nil, or_false] at *
  exact hissue.symm

theorem mem_clear (hissue : issue ∈ register.clear.issues) : issue ∈ register.issues := by
  unfold Register.issues Register.clear at *
  rw [List.append_nil] at hissue
  exact List.mem_append_left _ hissue

theorem mem_rollBack {block : ℤ} (hissue : issue ∈ (register.rollBack block).issues) :
    issue ∈ register.issues := by
  unfold Register.issues Register.rollBack at *
  rw [List.append_nil] at hissue
  exact List.mem_append_left _ (List.mem_of_mem_filter hissue)

/-- A step whose new entity is named plainly keeps the recorded names plain. -/
theorem RecordsPlainly.after (hplain : RecordsPlainly params register) (op : Op)
    (hop : NamesPlainly params assets op) :
    RecordsPlainly params (register.after params assets op) := by
  unfold Register.after
  cases op with
  | insertEntity issue entityType =>
    dsimp only
    split
    · exact hplain.accept fun _ => hop
    · exact hplain
  | insertAsset issue quantity name multiple =>
    dsimp only
    split
    · exact hplain.accept fun _ => hop
    · exact hplain
  | insertAssetFollowOn issue quantity originalTxid =>
    dsimp only
    split
    · exact hplain.accept fun hgenesis => by cases hgenesis
    · exact hplain
  | commit =>
    dsimp only
    split
    · exact hplain.of_subset fun _ => mem_confirm
    · exact hplain.of_subset fun _ => mem_clear
  | rollBack block => exact hplain.of_subset fun _ => mem_rollBack
  | clearMemPool => exact hplain.of_subset fun _ => mem_clear
  | restart => exact hplain.of_subset fun _ => mem_clear

theorem SoundRun.recordsPlainly (hrun : SoundRun params (KeepsIdentity params) assets register) :
    RecordsPlainly params register := by
  induction hrun with
  | start => exact fun issue hissue => absurd hissue List.not_mem_nil
  | apply op _ hop ih => exact ih.after op hop.2

/-- In every run whose steps keep entities apart, every recorded entity is found as
itself, confirmed or not, and no two share an identifier. -/
theorem identified_of_run (hrun : SoundRun params (KeepsIdentity params) assets register) :
    Identified params assets register := by
  obtain ⟨log, pending, hassets, hregister⟩ :=
    hrun.indexed (fun _ _ => trivial) fun _ _ hop => hop.1
  have hplain := hrun.recordsPlainly
  have hfound : ∀ issue ∈ register.issues, issue.isGenesis = true → FoundAs params assets issue :=
    fun issue hissue hgenesis =>
      hassets.foundAs hregister hissue hgenesis (hplain issue hissue hgenesis)
  exact ⟨hfound, fun issue hissue hgenesis other hother hotherGenesis hshare =>
    (hfound issue hissue hgenesis).key_eq (hfound other hother hotherGenesis) hshare⟩

instance (name : Bytes) : Decidable (PlainName name) :=
  inferInstanceAs (Decidable (∀ byte ∈ name.dropWhile fun byte => byte ≠ 0, byte = 0))

/-- Two assets in a block, one with a name. -/
theorem named_identified :
    Identified .defaults (runOps .defaults [issueStock, namedStock, .commit]).1
      (runOps .defaults [issueStock, namedStock, .commit]).2 := by
  have hissue : KeepsIdentity .defaults (runOps .defaults []).1 issueStock :=
    ⟨by unfold issueStock Sound; decide +kernel,
      by unfold issueStock NamesPlainly; decide +kernel⟩
  have hnamed : KeepsIdentity .defaults (runOps .defaults [issueStock]).1 namedStock :=
    ⟨by unfold namedStock Sound; decide +kernel,
      by unfold namedStock NamesPlainly; decide +kernel⟩
  have hcommit : KeepsIdentity .defaults (runOps .defaults [issueStock, namedStock]).1 .commit :=
    ⟨.inl (by unfold CanBeWritten; decide +kernel), trivial⟩
  have hfirst := @SoundRun.apply .defaults (KeepsIdentity .defaults) _ _ issueStock .start hissue
  exact identified_of_run (.apply .commit (.apply namedStock hfirst hnamed) hcommit)

/-- The rollback of the borrowing follow-on leaves the second asset without its
name. -/
theorem borrowed_name_leads_nowhere :
    ¬ ∀ (params : ChainParams) (assets : AssetDB) (register : Register),
      SoundRun params (fun _ _ => True) assets register → Identified params assets register := by
  intro hidentified
  have hfirst := @SoundRun.apply .defaults (fun _ _ => True) _ _ issueStock .start trivial
  have hrun : SoundRun .defaults (fun _ _ => True)
      (runOps .defaults [issueStock, namedStock, .commit, borrowedName, .commit, .rollBack 0]).1
      (runOps .defaults [issueStock, namedStock, .commit, borrowedName, .commit, .rollBack 0]).2 :=
    .apply (.rollBack 0) (.apply .commit (.apply borrowedName
      (.apply .commit (.apply namedStock hfirst trivial) trivial) trivial) trivial) trivial
  have hnewest : ((runOps .defaults [issueStock, namedStock, .commit, borrowedName, .commit,
      .rollBack 0]).2.issues.head?.map fun issue => (issue.isGenesis, issue.script)) =
        some (true, assetParams .defaults [] [0x62] 1) := by
    decide +kernel
  obtain ⟨issue, hissue, hdata⟩ := Option.map_eq_some_iff.mp hnewest
  obtain ⟨hgenesis, hscript⟩ := Prod.mk.injEq .. ▸ hdata
  have hname := ((hidentified _ _ _ hrun).found issue (List.mem_of_head? hissue) hgenesis).byName
    [0x62, 0] (by rw [hscript]; decide +kernel) [0x62] (by decide)
  cases hname

end AssetDB

end Amberchain.Entity
