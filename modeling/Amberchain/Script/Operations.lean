import Amberchain.Script.Destination

/-!
# Scripts as lists of operations

The loops over a script read one operation after the other until nothing is left.  A
script that `GetOp` reads to its end is a list of operations, and every such loop is one
over that list.
-/

namespace Amberchain.Script

/-- The script consists of the operations. -/
inductive HasOps : Bytes → List ScriptOp → Prop
  | nil : HasOps [] []
  | cons {script : Bytes} {op : ScriptOp} {ops : List ScriptOp} (hop : getOp script = some op)
      (hrest : HasOps op.rest ops) : HasOps script (op :: ops)

theorem pushSize_length_le {opcode : Byte} {rest left : Bytes} {size : ℕ}
    (hsize : pushSize opcode rest = some (size, left)) : left.length ≤ rest.length := by
  unfold pushSize at hsize
  dsimp only at hsize
  split_ifs at hsize <;> cases hsize <;> simp

variable {op : ScriptOp}

theorem getOp_rest_lt {script : Bytes} (hop : getOp script = some op) :
    op.rest.length < script.length := by
  cases script with
  | nil => cases hop
  | cons opcode rest =>
    rw [getOp] at hop
    cases hsize : pushSize opcode rest with
    | none => rw [hsize] at hop; cases hop
    | some pushed =>
      rw [hsize] at hop
      dsimp only at hop
      split_ifs at hop
      cases hop
      have hle := pushSize_length_le hsize
      simp only [List.length_drop, List.length_cons]
      omega

theorem getOp_opcode {script : Bytes} (hop : getOp script = some op) :
    script.head? = some op.opcode := by
  cases script with
  | nil => cases hop
  | cons opcode rest =>
    rw [getOp] at hop
    cases hsize : pushSize opcode rest with
    | none => rw [hsize] at hop; cases hop
    | some pushed =>
      rw [hsize] at hop
      dsimp only at hop
      split_ifs at hop
      cases hop
      rfl

theorem pushSize_plain {opcode : Byte} (hplain : OP_PUSHDATA4 < opcode) (rest : Bytes) :
    pushSize opcode rest = some (0, rest) := by
  have hne {other : Byte} (hle : other ≤ OP_PUSHDATA4) : opcode ≠ other := by
    rintro rfl
    exact absurd hplain (BitVec.not_lt.mpr hle)
  have hlt : ¬ opcode < OP_PUSHDATA1 := by
    intro hlt
    exact absurd (BitVec.lt_trans hplain hlt) (by decide)
  unfold pushSize
  rw [if_neg hlt, if_neg (hne (by decide)), if_neg (hne (by decide)), if_neg (hne (by decide))]

theorem getOp_data_of_lt {script : Bytes} (hop : getOp script = some op)
    (hplain : OP_PUSHDATA4 < op.opcode) : op.data = [] := by
  cases script with
  | nil => cases hop
  | cons opcode rest =>
    have hhead : opcode = op.opcode := by simpa using getOp_opcode hop
    rw [getOp, pushSize_plain (by rw [hhead]; exact hplain)] at hop
    exact (congrArg ScriptOp.data (Option.some.inj hop)).symm

theorem eq_cons_of_plain {script : Bytes} (hop : getOp script = some op)
    (hplain : OP_PUSHDATA4 < op.opcode) : script = op.opcode :: op.rest := by
  cases script with
  | nil => cases hop
  | cons opcode rest =>
    have hhead : opcode = op.opcode := by simpa using getOp_opcode hop
    rw [getOp, pushSize_plain (by rw [hhead]; exact hplain)] at hop
    rw [hhead, ← congrArg ScriptOp.rest (Option.some.inj hop), List.drop_zero]

theorem getOp_direct {opcode : Byte} {rest : Bytes}
    (hop : getOp (opcode :: rest) = some op) (hdirect : opcode < OP_PUSHDATA1) :
    opcode.toNat ≤ rest.length ∧ op.data = rest.take opcode.toNat
      ∧ op.rest = rest.drop opcode.toNat := by
  rw [getOp, pushSize, if_pos hdirect] at hop
  dsimp only at hop
  split_ifs at hop with hshort
  cases hop
  exact ⟨Nat.not_lt.mp hshort, rfl, rfl⟩

namespace HasOps

variable {script : Bytes} {ops : List ScriptOp}

theorem unique {other : List ScriptOp} (hops : HasOps script ops) (hother : HasOps script other) :
    ops = other := by
  induction hops generalizing other with
  | nil =>
    cases hother with
    | nil => rfl
    | cons hop => cases hop
  | cons hop _ ih =>
    cases hother with
    | nil => cases hop
    | cons hop' hrest' =>
      rw [hop] at hop'
      cases hop'
      rw [ih hrest']

theorem eq_nil (hops : HasOps [] ops) : ops = [] :=
  hops.unique .nil

/-- The script starts with the operation that `GetOp` reads. -/
theorem exists_cons (hops : HasOps script ops) (hop : getOp script = some op) :
    ∃ rest, ops = op :: rest ∧ HasOps op.rest rest := by
  cases hops with
  | nil => cases hop
  | cons hop' hrest =>
    rw [hop] at hop'
    cases hop'
    exact ⟨_, rfl, hrest⟩

theorem data_eq_nil (hops : HasOps script ops) {op : ScriptOp} (hmem : op ∈ ops)
    (hplain : OP_PUSHDATA4 < op.opcode) : op.data = [] := by
  induction hops with
  | nil => cases hmem
  | cons hop _ ih =>
    rcases List.mem_cons.mp hmem with rfl | hmem
    · exact getOp_data_of_lt hop hplain
    exact ih hmem

end HasOps

theorem hasOps_nil_iff {script : Bytes} : HasOps script [] ↔ script = [] := by
  constructor
  · intro hops
    cases hops
    rfl
  rintro rfl
  exact .nil

theorem hasOps_cons_iff {script : Bytes} {ops : List ScriptOp} :
    HasOps script (op :: ops) ↔ getOp script = some op ∧ HasOps op.rest ops := by
  constructor
  · generalize hall : op :: ops = all
    intro hops
    cases hops with
    | nil => cases hall
    | cons hop hrest =>
      cases hall
      exact ⟨hop, hrest⟩
  rintro ⟨hop, hrest⟩
  exact .cons hop hrest

theorem pushOnlyFrom_iff {fuel : ℕ} {script : Bytes} (hfuel : script.length ≤ fuel) :
    pushOnlyFrom fuel script = true ↔ ∃ ops, HasOps script ops ∧ ∀ op ∈ ops, op.opcode ≤ OP_16 := by
  induction fuel generalizing script with
  | zero =>
    have hnil : script = [] := List.eq_nil_of_length_eq_zero (by omega)
    subst hnil
    exact ⟨fun _ => ⟨[], .nil, nofun⟩, fun _ => rfl⟩
  | succ fuel ih =>
    rw [pushOnlyFrom]
    split_ifs with hnil
    · subst hnil
      exact ⟨fun _ => ⟨[], .nil, nofun⟩, fun _ => rfl⟩
    cases hop : getOp script with
    | none =>
      refine ⟨nofun, ?_⟩
      rintro ⟨ops, hops, -⟩
      cases hops with
      | nil => exact absurd rfl hnil
      | cons hop' => rw [hop] at hop'; cases hop'
    | some op =>
      have hlt := getOp_rest_lt hop
      dsimp only
      by_cases hplain : OP_16 < op.opcode
      · rw [if_pos hplain]
        refine ⟨nofun, ?_⟩
        rintro ⟨ops, hops, hall⟩
        obtain ⟨rest, rfl, -⟩ := hops.exists_cons hop
        exact absurd hplain (BitVec.not_lt.mpr (hall op (by simp)))
      rw [if_neg hplain, ih (by omega)]
      constructor
      · rintro ⟨ops, hops, hall⟩
        refine ⟨op :: ops, .cons hop hops, ?_⟩
        intro other hmem
        rcases List.mem_cons.mp hmem with rfl | hmem
        · exact BitVec.not_lt.mp hplain
        · exact hall other hmem
      rintro ⟨ops, hops, hall⟩
      obtain ⟨rest, rfl, hrest⟩ := hops.exists_cons hop
      exact ⟨rest, hrest, fun other hmem => hall other (.tail _ hmem)⟩

theorem isPushOnly_iff {script : Bytes} :
    isPushOnly script = true ↔ ∃ ops, HasOps script ops ∧ ∀ op ∈ ops, op.opcode ≤ OP_16 :=
  pushOnlyFrom_iff (Nat.le_refl _)

def considered (checkLast : Bool) (ops : List ScriptOp) : List Bytes :=
  ((if checkLast then ops else ops.dropLast).map ScriptOp.data)

theorem sigHashFrom_eq {checkLast : Bool} {script : Bytes} {ops : List ScriptOp}
    (hops : HasOps script ops) (hpush : ∀ op ∈ ops, op.opcode ≤ OP_16) (type : SigHash)
    {fuel : ℕ} (hfuel : script.length ≤ fuel) : sigHashFrom checkLast fuel script type
      = (considered checkLast ops).foldl SigHash.next type := by
  induction hops generalizing type fuel with
  | nil =>
    cases fuel <;> cases checkLast <;> rfl
  | @cons script op ops hop hrest ih =>
    have hlt := getOp_rest_lt hop
    have hne : script ≠ [] := by
      rintro rfl
      cases hop
    cases fuel with
    | zero => omega
    | succ fuel =>
      rw [sigHashFrom, if_neg hne, hop]
      dsimp only
      rw [if_neg (BitVec.not_lt.mpr (hpush op (by simp))),
        ih (fun other hmem => hpush other (.tail _ hmem)) _ (by omega)]
      by_cases hlast : op.rest = []
      · have hnil : ops = [] := by
          rw [hlast] at hrest
          exact hrest.eq_nil
        subst hnil
        cases checkLast <;> simp [considered, hlast]
      have hcons : ops ≠ [] := by
        rintro rfl
        exact hlast (hasOps_nil_iff.mp hrest)
      rw [if_pos (.inl hlast)]
      cases checkLast
      · simp only [considered, List.dropLast_cons_of_ne_nil hcons, Bool.false_eq_true, if_false,
          List.map_cons, List.foldl_cons]
      rfl

theorem sigHashType_eq {checkLast : Bool} {script : Bytes} {ops : List ScriptOp}
    (hops : HasOps script ops) (hpush : ∀ op ∈ ops, op.opcode ≤ OP_16) (hne : script ≠ []) :
    sigHashType script checkLast = (considered checkLast ops).foldl SigHash.next .all := by
  rw [sigHashType, if_neg hne, sigHashFrom_eq hops hpush _ (Nat.le_refl _)]

/-- The last byte of an element names the hash type `SIGHASH_ALL`. -/
def endsWithAll (data : Bytes) : Prop :=
  ∀ byte ∈ data.getLast?, byte &&& 0x1f = 1

/-- The last byte names `SIGHASH_ALL` or `SIGHASH_SINGLE`. -/
def endsWithAllOrSingle (data : Bytes) : Prop :=
  ∀ byte ∈ data.getLast?, byte &&& 0x1f = 1 ∨ byte &&& 0x1f = 3

variable {type : SigHash}

theorem SigHash.next_eq_all {data : Bytes} (hnext : type.next data = .all) :
    type = .all ∧ endsWithAll data := by
  unfold SigHash.next at hnext
  unfold endsWithAll
  cases hlast : data.getLast? with
  | none =>
    rw [hlast] at hnext
    exact ⟨hnext, nofun⟩
  | some byte =>
    rw [hlast] at hnext
    dsimp only at hnext
    split_ifs at hnext with hall hsingle htype
    · exact ⟨hnext, by simpa using hall⟩
    exact absurd (not_not.mp htype) (by rw [hnext]; decide)

theorem SigHash.next_ne_none {data : Bytes} (hnext : type.next data ≠ .none) :
    type ≠ .none ∧ endsWithAllOrSingle data := by
  unfold SigHash.next at hnext
  unfold endsWithAllOrSingle
  cases hlast : data.getLast? with
  | none =>
    rw [hlast] at hnext
    exact ⟨hnext, nofun⟩
  | some byte =>
    rw [hlast] at hnext
    dsimp only at hnext
    split_ifs at hnext with hall hsingle htype
    · exact ⟨hnext, by simpa using .inl hall⟩
    · exact absurd rfl hnext
    · exact ⟨htype, by simpa using .inr (not_not.mp hsingle)⟩
    exact ⟨hnext, by simpa using .inr (not_not.mp hsingle)⟩

theorem foldl_next_eq_all {elements : List Bytes}
    (hfold : elements.foldl SigHash.next type = .all) :
    type = .all ∧ ∀ data ∈ elements, endsWithAll data := by
  induction elements generalizing type with
  | nil => exact ⟨hfold, nofun⟩
  | cons data elements ih =>
    obtain ⟨hnext, helements⟩ := ih hfold
    obtain ⟨htype, hdata⟩ := SigHash.next_eq_all hnext
    refine ⟨htype, ?_⟩
    intro other hmem
    rcases List.mem_cons.mp hmem with rfl | hmem
    · exact hdata
    exact helements other hmem

theorem foldl_next_ne_none {elements : List Bytes}
    (hfold : elements.foldl SigHash.next type ≠ .none) :
    type ≠ .none ∧ ∀ data ∈ elements, endsWithAllOrSingle data := by
  induction elements generalizing type with
  | nil => exact ⟨hfold, nofun⟩
  | cons data elements ih =>
    obtain ⟨hnext, helements⟩ := ih hfold
    obtain ⟨htype, hdata⟩ := SigHash.next_ne_none hnext
    refine ⟨htype, ?_⟩
    intro other hmem
    rcases List.mem_cons.mp hmem with rfl | hmem
    · exact hdata
    exact helements other hmem

end Amberchain.Script
