import Amberchain.ParamSet.SetSpec

/-!
# The parameter sets that a node builds

Every function that builds a parameter set writes each parameter at most once, so what a node
builds is the layout of a list, and `Set` finds the same list in its data.
-/

namespace Amberchain.ParamSet

open MultichainParams

/-- Entries of distinct parameters of the table, for which there is room. -/
structure Sound (entries : List Entry) : Prop where
  known : ∀ entry ∈ entries, entry.1 < count
  nodup : (entries.map Prod.fst).Nodup
  fits : (encode entries).length ≤ allocated

def LaidOut (params : MultichainParams) : Prop :=
  ∃ entries, Sound entries ∧ params = layOut entries

theorem sound_nil : Sound [] where
  known := fun _ hmem => by cases hmem
  nodup := List.nodup_nil
  fits := Nat.zero_le _

variable {entries : List Entry}

theorem Sound.concat (hsound : Sound entries) {entry : Entry}
    (hknown : entry.1 < count) (hnew : entry.1 ∉ entries.map Prod.fst)
    (hfits : (encode (entries ++ [entry])).length ≤ allocated) : Sound (entries ++ [entry]) where
  known := by
    intro other hmem
    rcases List.mem_append.mp hmem with hold | hlast
    · exact hsound.known other hold
    rw [List.mem_singleton.mp hlast]
    exact hknown
  nodup := by
    rw [List.map_append, List.map_singleton]
    refine hsound.nodup.append (List.nodup_singleton _) ?_
    rw [List.disjoint_singleton]
    exact hnew
  fits := hfits

theorem append_sound {i : ℕ} {param : OneMultichainParam} {value : Bytes}
    {next : MultichainParams} (hsound : Sound entries)
    (hget : multichainParamArray[i]? = some param) (hnew : i ∉ entries.map Prod.fst)
    (happend : (layOut entries).append i param.key value.length value = .ok next) :
    Sound (entries ++ [(i, value)]) ∧ next = layOut (entries ++ [(i, value)]) := by
  have hi : i < count := (List.getElem?_eq_some_iff.mp hget).1
  by_cases hfits : (encode (entries ++ [(i, value)])).length ≤ allocated
  · rw [append_layOut hget hfits] at happend
    exact ⟨hsound.concat hi hnew hfits, (Except.ok.inj happend).symm⟩
  rw [append_layOut_eq_undefined hget hsound.fits (Nat.lt_of_not_le hfits)] at happend
  cases happend

def Writes (step : MultichainParams → OneMultichainParam × ℕ → Except Stop MultichainParams) :
    Prop :=
  ∀ params entry next, step params entry = .ok next →
    next = params ∨ ∃ value, params.put entry value = .ok next

/-- Steps over the table build a layout: behind each of them only parameters before the next
one are set. -/
theorem foldlM_laidOut
    {step : MultichainParams → OneMultichainParam × ℕ → Except Stop MultichainParams}
    (hstep : Writes step) (rest : List OneMultichainParam) :
    ∀ (done : ℕ) (entries : List Entry) (next : MultichainParams),
      multichainParamArray.drop done = rest → Sound entries →
      (∀ i ∈ entries.map Prod.fst, i < done) →
      (rest.zipIdx done).foldlM step (layOut entries) = .ok next → LaidOut next := by
  induction rest with
  | nil =>
    intro done entries next _ hsound _ hfold
    cases hfold
    exact ⟨entries, hsound, rfl⟩
  | cons param rest ih =>
    intro done entries next hdrop hsound hbelow hfold
    have hget : multichainParamArray[done]? = some param := by
      have hhead := congrArg List.head? hdrop
      rwa [List.head?_drop] at hhead
    have hdrop' : multichainParamArray.drop (done + 1) = rest := by
      rw [← List.drop_drop, hdrop, List.drop_one, List.tail_cons]
    rw [List.zipIdx_cons, List.foldlM_cons] at hfold
    cases hone : step (layOut entries) (param, done) with
    | error stop =>
      rw [hone] at hfold
      cases hfold
    | ok middle =>
      rw [hone] at hfold
      rcases hstep _ _ _ hone with rfl | ⟨value, hput⟩
      · refine ih (done + 1) entries next hdrop' hsound ?_ hfold
        intro i hmem
        exact Nat.lt_succ_of_lt (hbelow i hmem)
      have hnew : done ∉ entries.map Prod.fst := fun hmem =>
        absurd (hbelow done hmem) (Nat.lt_irrefl done)
      obtain ⟨hsound', rfl⟩ := append_sound hsound hget hnew hput
      refine ih (done + 1) _ next hdrop' hsound' ?_ hfold
      intro i hmem
      rw [List.map_append, List.mem_append] at hmem
      rcases hmem with hold | hlast
      · exact Nat.lt_succ_of_lt (hbelow i hold)
      rw [List.mem_singleton.mp hlast]
      exact Nat.lt_succ_self done

theorem foldlM_init_laidOut
    {step : MultichainParams → OneMultichainParam × ℕ → Except Stop MultichainParams}
    (hstep : Writes step) {next : MultichainParams}
    (hfold : multichainParamArray.zipIdx.foldlM step init = .ok next) : LaidOut next := by
  refine foldlM_laidOut hstep _ 0 [] next rfl sound_nil ?_ hfold
  intro i hmem
  cases hmem

theorem laidOut_init : LaidOut init :=
  ⟨[], sound_nil, init_eq_layOut⟩

theorem writes_readEntry (node : Node) (config : String → Option Bytes) (withArgs : Bool)
    (defaults : MultichainParams) : Writes (readEntry node config withArgs defaults) := by
  intro params entry next hstep
  rw [readEntry] at hstep
  split at hstep
  next text htext =>
    simp only [bind, Except.bind] at hstep
    split at hstep
    · cases hstep
    next value hvalue => exact .inr ⟨value, hstep⟩
  next htext =>
    split at hstep
    · simp only [bind, Except.bind] at hstep
      split at hstep
      · cases hstep
      next value hvalue => exact .inr ⟨value, hstep⟩
    cases hstep
    exact .inl rfl

theorem writes_cloneEntry (source defaults : MultichainParams) :
    Writes (cloneEntry source defaults) := by
  intro params entry next hstep
  rw [cloneEntry] at hstep
  split at hstep
  · simp only [bind, Except.bind] at hstep
    split at hstep
    · cases hstep
    next value hvalue => exact .inr ⟨value, hstep⟩
  · simp only [bind, Except.bind] at hstep
    split at hstep
    · cases hstep
    next value hvalue => exact .inr ⟨value, hstep⟩
  cases hstep
  exact .inl rfl

variable {params next : MultichainParams}

theorem eq_of_checkVersions (hcheck : checkVersions params = .ok next) : next = params := by
  rw [checkVersions] at hcheck
  split at hcheck
  · cases hcheck
  exact (Except.ok.inj hcheck).symm

variable {node : Node}

theorem read_laidOut {chain : Bytes} {config : String → Option Bytes}
    {withArgs : Bool} {createVersion : ℤ} {draws : Draws} {next : MultichainParams}
    (hread : read node chain config withArgs createVersion draws = .ok next) : LaidOut next := by
  rw [MultichainParams.read] at hread
  split at hread
  · rw [eq_of_checkVersions hread]
    exact laidOut_init
  split at hread
  · cases hread
  simp only [bind, Except.bind] at hread
  split at hread
  · cases hread
  next defaults hdefaults =>
    split at hread
    · cases hread
    next params hfold =>
      rw [eq_of_checkVersions hread]
      exact foldlM_init_laidOut (writes_readEntry node config withArgs defaults) hfold

theorem clone_laidOut {chain : Bytes} {upgraded : ℤ} {source : MultichainParams}
    {draws : Draws} {next : MultichainParams}
    (hclone : clone node chain upgraded source draws = .ok next) : LaidOut next := by
  rw [clone] at hclone
  simp only [bind, Except.bind] at hclone
  split at hclone
  · cases hclone
  split at hclone
  · cases hclone
  next defaults hdefaults =>
    exact foldlM_init_laidOut (writes_cloneEntry source defaults) hclone

theorem setParam_laidOut {name : String} {value : Bytes}
    (hlaid : LaidOut params) (hset : setParam params name value = .ok next) : LaidOut next := by
  obtain ⟨entries, hsound, rfl⟩ := hlaid
  rw [setParam] at hset
  split at hset
  · cases hset
  next i hindex =>
    obtain ⟨param, hget, hkey⟩ := index_eq_some_iff.mp hindex
    have hi : i < count := (List.getElem?_eq_some_iff.mp hget).1
    rw [hget] at hset
    dsimp only at hset
    split at hset
    · cases hset
    split at hset
    · cases hset
    next hunset =>
      have hnew := (coordAt_layOut_neg_iff hi).mp (Int.not_le.mp hunset)
      rw [← hkey] at hset
      obtain ⟨hsound', rfl⟩ := append_sound hsound hget hnew hset
      exact ⟨_, hsound', rfl⟩

theorem addMissing_eq {entry : OneMultichainParam × ℕ}
    {found found' : Findings} (hadd : addMissing params entry found = .ok (next, found')) :
    next = params ∨ ∃ value, params.put entry value = .ok next := by
  rw [addMissing] at hadd
  split at hadd
  · cases hadd
    exact .inl rfl
  · simp only [bind, Except.bind] at hadd
    split at hadd
    · cases hadd
    split at hadd
    · split at hadd
      · cases hadd
      next params' hput =>
        cases hadd
        exact .inr ⟨_, hput⟩
    cases hadd
    exact .inl rfl
  · cases hadd
    exact .inl rfl
  simp only [bind, Except.bind] at hadd
  split at hadd
  · cases hadd
  cases hadd
  exact .inl rfl

theorem validateEntry_laidOut {state next : MultichainParams × Findings}
    {entry : OneMultichainParam × ℕ} (hentry : multichainParamArray[entry.2]? = some entry.1)
    (hlaid : LaidOut state.1) (hstep : validateEntry state entry = .ok next) : LaidOut next.1 := by
  rw [validateEntry] at hstep
  split at hstep
  next hunset =>
    simp only [bind, Except.bind] at hstep
    split at hstep
    · cases hstep
    next added hadd =>
      cases hstep
      obtain ⟨entries, hsound, hparams⟩ := hlaid
      rcases addMissing_eq hadd with hsame | ⟨value, hput⟩
      · exact ⟨entries, hsound, hsame.trans hparams⟩
      have hi : entry.2 < count := (List.getElem?_eq_some_iff.mp hentry).1
      rw [hparams] at hunset hput
      have hnew := (coordAt_layOut_neg_iff hi).mp hunset
      obtain ⟨hsound', hnext⟩ := append_sound hsound hentry hnew hput
      exact ⟨_, hsound', hnext⟩
  next =>
    cases hstep
    exact hlaid

theorem foldlM_validateEntry {list : List (OneMultichainParam × ℕ)}
    (hlist : ∀ entry ∈ list, multichainParamArray[entry.2]? = some entry.1)
    {state next : MultichainParams × Findings} (hlaid : LaidOut state.1)
    (hfold : list.foldlM validateEntry state = .ok next) : LaidOut next.1 := by
  induction list generalizing state with
  | nil =>
    cases hfold
    exact hlaid
  | cons entry list ih =>
    rw [List.foldlM_cons] at hfold
    cases hone : validateEntry state entry with
    | error stop =>
      rw [hone] at hfold
      cases hfold
    | ok middle =>
      rw [hone] at hfold
      have hentry := hlist entry (.head _)
      exact ih (fun other hmem => hlist other (.tail _ hmem))
        (validateEntry_laidOut hentry hlaid hone) hfold

theorem validate_laidOut {status : Status}
    (hlaid : LaidOut params) (hvalidate : validate node params = .ok (next, status)) :
    LaidOut next := by
  rw [validate] at hvalidate
  split at hvalidate
  · cases hvalidate
    exact hlaid
  simp only [bind, Except.bind] at hvalidate
  split at hvalidate
  · cases hvalidate
  next result hfold =>
    split at hvalidate
    · cases hvalidate
    cases hvalidate
    have hlist : ∀ entry ∈ multichainParamArray.zipIdx,
        multichainParamArray[entry.2]? = some entry.1 := by
      intro entry hmem
      exact List.mem_zipIdx_iff_getElem?.mp hmem
    exact foldlM_validateEntry hlist hlaid hfold

theorem built_laidOut {params : MultichainParams} (hbuilt : Built node params) :
    LaidOut params := by
  induction hbuilt with
  | read hread => exact read_laidOut hread
  | clone hsource hclone ih => exact clone_laidOut hclone
  | validate hbuilt hvalidate ih => exact validate_laidOut ih hvalidate
  | setParam hbuilt hset ih => exact setParam_laidOut ih hset

theorem key_spec {i : ℕ} (hi : i < count) :
    keyAt i ≠ [] ∧ (0 : Byte) ∉ keyAt i ∧ index (keyAt i) = some i := by
  have hget : multichainParamArray[i]? = some multichainParamArray[i] := List.getElem?_eq_getElem hi
  have hmem := List.mem_of_getElem? hget
  rw [keyAt_of_get hget]
  exact ⟨key_ne_nil hmem, zero_notMem_key hmem, index_key hget⟩

theorem itemsFrom_encode (hknown : ∀ entry ∈ entries, entry.1 < count)
    (hsize : ∀ entry ∈ entries, entry.2.length < 256 ^ paramSizeBytes) (fuel : ℕ)
    (hfuel : (encode entries).length ≤ fuel) : itemsFrom fuel (encode entries)
      = some (entries.map fun entry => ⟨keyAt entry.1, some entry.2⟩) := by
  induction entries generalizing fuel with
  | nil =>
    cases fuel with
    | zero => rfl
    | succ fuel => rfl
  | cons entry rest ih =>
    obtain ⟨i, value⟩ := entry
    obtain ⟨hkey, hzero, -⟩ := key_spec (hknown _ (.head _))
    have hvalue := hsize _ (.head _)
    have hencode : encode ((i, value) :: rest)
        = keyAt i ++ 0 :: (putLE value.length paramSizeBytes ++ (value ++ encode rest)) := by
      rw [encode, List.flatMap_cons, encodeEntry, List.append_assoc]
      rfl
    have hhead : (encode ((i, value) :: rest)).head?.getD 0 ≠ 0 := by
      rw [hencode]
      generalize keyAt i = key at hkey hzero
      cases key with
      | nil => exact absurd rfl hkey
      | cons byte key =>
        rintro rfl
        exact hzero (.head _)
    have hlength := congrArg List.length hencode
    simp only [List.length_append, List.length_cons, length_putLE] at hlength
    cases fuel with
    | zero => omega
    | succ fuel =>
      have hlast : (0 : Byte) ∈ encode ((i, value) :: rest) := by
        rw [hencode]
        exact List.mem_append_right _ (.head _)
      have hrest := ih (fun other hmem => hknown other (.tail _ hmem))
        (fun other hmem => hsize other (.tail _ hmem)) fuel (by omega)
      have hdrop : ∀ tail : Bytes, (keyAt i ++ 0 :: tail).drop ((keyAt i).length + 1) = tail := by
        intro tail
        rw [← List.drop_drop, List.drop_left, List.drop_one, List.tail_cons]
      have hfits : value.length ≤ (value ++ encode rest).length := by
        rw [List.length_append]
        omega
      rw [itemsFrom, if_neg hhead, if_neg (not_not.mpr hlast)]
      dsimp only
      rw [hencode, Memory.takeWhile_terminated hzero, hdrop, getLE_putLE hvalue,
        drop_putLE, if_pos hfits, List.take_left, List.drop_left, hrest]
      rfl

theorem kept_items {seen : List ℕ}
    (hknown : ∀ entry ∈ entries, entry.1 < count) (hnodup : (entries.map Prod.fst).Nodup)
    (hseen : ∀ entry ∈ entries, entry.1 ∉ seen) :
    kept seen (entries.map fun entry => ⟨keyAt entry.1, some entry.2⟩) = entries := by
  induction entries generalizing seen with
  | nil => rfl
  | cons entry rest ih =>
    obtain ⟨-, -, hindex⟩ := key_spec (hknown entry (.head _))
    rw [List.map_cons, List.nodup_cons] at hnodup
    rw [List.map_cons, kept_keep rfl hindex (hseen entry (.head _)), ih _ hnodup.2]
    · intro other hmem hin
      rcases List.mem_append.mp hin with hold | hlast
      · exact hseen other (.tail _ hmem) hold
      rw [List.mem_singleton] at hlast
      exact hnodup.1 (hlast ▸ List.mem_map_of_mem hmem)
    exact fun other hmem => hknown other (.tail _ hmem)

theorem Sound.value_lt (hsound : Sound entries) :
    ∀ entry ∈ entries, entry.2.length < 256 ^ paramSizeBytes := by
  intro entry hmem
  have hlength : (encodeEntry entry).length ≤ (encode entries).length := by
    exact (List.sublist_flatten_of_mem (List.mem_map_of_mem hmem)).length_le
  have hroom := hsound.fits
  rw [allocated_eq] at hroom
  rw [length_encodeEntry] at hlength
  have hmax : 256 ^ paramSizeBytes = 65536 := rfl
  omega

def ownData (params : MultichainParams) : Bytes :=
  params.data.take params.size.toNat

theorem ownData_layOut (entries : List Entry) : ownData (layOut entries) = encode entries := by
  rw [ownData, layOut]
  rw [Int.toNat_natCast, List.take_left]

theorem firstSized_encode (hsound : Sound entries) : FirstSized (encode entries) := by
  cases entries with
  | nil => exact .inl rfl
  | cons entry rest =>
    obtain ⟨-, hzero, -⟩ := key_spec (hsound.known entry (.head _))
    right
    rw [encode, List.flatMap_cons, encodeEntry, List.append_assoc, List.cons_append,
      Memory.takeWhile_terminated hzero]
    simp only [List.length_append, List.length_cons, length_putLE]
    omega

theorem set_ownData {params : MultichainParams} (hbuilt : Built node params) (unset : BitVec 32) :
    set (ownData params) unset ((ownData params).length + 1) = some (.ok params) := by
  obtain ⟨entries, hsound, rfl⟩ := built_laidOut hbuilt
  have hitems : items (encode entries)
      = some (entries.map fun entry => ⟨keyAt entry.1, some entry.2⟩) :=
    itemsFrom_encode hsound.known hsound.value_lt _ (Nat.le_refl _)
  have hkept : kept [] (entries.map fun entry => ⟨keyAt entry.1, some entry.2⟩) = entries :=
    kept_items hsound.known hsound.nodup fun _ _ hmem => by cases hmem
  rw [ownData_layOut, set_eq_outcome (firstSized_encode hsound), hitems, outcome, List.nil_append,
    List.map_nil, hkept, if_pos hsound.fits]

/-- The value that `GetParam` points to. -/
def lookup (params : MultichainParams) (name : String) : Option (Except Stop Bytes) :=
  (params.getParam (cstr name)).map params.valueAt

/-- `Set` is safe exactly on the acceptable strings.  On the data of a parameter set that a
node built it makes a parameter set with the same values and the same hash. -/
theorem set_safe_and_faithful (source : Bytes) (hlength : source.length ≤ maxSourceSize)
    (node : Node) (params : MultichainParams) (hbuilt : Built node params) (unset : ℤ) :
    (SafelySet source ↔ Acceptable source) ∧
      ∃ fuel received, set (ownData params) unset fuel = some (.ok received) ∧
        (∀ name, lookup received name = lookup params name) ∧
        received.calculateHash node.sha256 = params.calculateHash node.sha256 :=
  ⟨safelySet_iff hlength, _, params, set_ownData hbuilt unset, fun _ => rfl, rfl⟩

/-- A node with fixed conversions, and a parameter set with the version of the genesis block. -/
theorem set_safe_and_faithful_genesisVersion :
    (SafelySet (cstr "chainname" ++ 0 :: [2, 0, 0x61, 0]) ↔
      Acceptable (cstr "chainname" ++ 0 :: [2, 0, 0x61, 0])) ∧
      ∃ fuel received, set (ownData (layOut [(61, [1, 0, 0, 0])])) 0 fuel = some (.ok received) ∧
        (∀ name, lookup received name = lookup (layOut [(61, [1, 0, 0, 0])]) name) ∧
        received.calculateHash id = (layOut [(61, [1, 0, 0, 0])]).calculateHash id := by
  have hread : Built ⟨10009, fun _ => 0, fun _ => 0, fun _ => 0, fun _ _ _ _ => false, id⟩ init :=
    Built.read (show MultichainParams.read _ [] (fun _ => none) false 0 ⟨0, 0⟩ = .ok init from rfl)
  have hset : setParam init "genesisversion" [1, 0, 0, 0] = .ok (layOut [(61, [1, 0, 0, 0])]) := by
    decide +kernel
  exact set_safe_and_faithful _ (by decide +kernel) _ _ (Built.setParam hread hset) 0

/-- The value of a peer that is longer than the buffer is written behind it. -/
theorem set_overflows :
    ¬ SafelySet (cstr "chainname" ++ 0 :: (putLE 4000 2 ++ List.replicate 4000 0)) := by
  have hknown : ∀ entry ∈ [((53, List.replicate 4000 0) : Entry)], entry.1 < count := by
    intro entry hmem
    rw [List.mem_singleton.mp hmem]
    decide +kernel
  have hsize : ∀ entry ∈ [((53, List.replicate 4000 0) : Entry)],
      entry.2.length < 256 ^ paramSizeBytes := by
    intro entry hmem
    rw [List.mem_singleton.mp hmem, List.length_replicate]
    decide
  have hsource : cstr "chainname" ++ 0 :: (putLE 4000 2 ++ List.replicate 4000 0)
      = encode [((53, List.replicate 4000 0) : Entry)] := by
    rw [encode, List.flatMap_singleton, encodeEntry, List.length_replicate]
    rfl
  have hlength : (encode [((53, List.replicate 4000 0) : Entry)]).length = 4012 := by
    rw [← hsource, List.length_append, List.length_cons, List.length_append, List.length_replicate]
    rfl
  have hmax : (4012 : ℕ) ≤ maxSourceSize := by decide
  rw [hsource, safelySet_iff (hlength.le.trans hmax)]
  rintro ⟨-, list, hitems, hfits⟩
  rw [items, itemsFrom_encode hknown hsize _ (Nat.le_refl _)] at hitems
  have hlist := Option.some.inj hitems
  rw [← hlist, kept_items hknown (List.nodup_singleton _) (fun _ _ hmem => by cases hmem), allocated_eq] at hfits
  omega

end Amberchain.ParamSet
