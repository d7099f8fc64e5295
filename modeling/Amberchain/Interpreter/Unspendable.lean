import Amberchain.Interpreter.Rounds
import Amberchain.Script.ScannerProgress

/-!
# Where `IsUnspendable` finds `OP_RETURN`

`mc_ParseOpDropOpReturnScript` walks over a script with its own reader of pushes.  On a
script that `GetOp` reads to its end it stands at operations only, so that it finds
`OP_RETURN` exactly when it is one of them, in whatever condition.
-/

namespace Amberchain.Interpreter

open Miner (isUnspendable parseFrom parseOpDropOpReturnScript)
open Script

theorem byteAt_append (front : Bytes) (opcode : Byte) (rest : Bytes) :
    byteAt (front ++ opcode :: rest) front.length = opcode := by
  unfold byteAt
  rw [Int.toNat_natCast, List.getD_eq_getElem?_getD, List.getElem?_append_right (Nat.le_refl _),
    Nat.sub_self]
  rfl

theorem numberAt_append (front : Bytes) (opcode : Byte) (rest : Bytes) (size : ℕ) :
    numberAt (front ++ opcode :: rest) (front.length + 1) size = getLE rest size := by
  have hdrop : (front ++ opcode :: rest).drop (front.length + 1) = rest := by
    rw [List.append_cons]
    exact List.drop_left' (by rw [List.length_append, List.length_singleton])
  unfold numberAt
  rw [show ((front.length : ℤ) + 1).toNat = front.length + 1 by omega, hdrop]

theorem sized_append {front rest left : Bytes} {opcode : Byte} {bytes size : ℕ}
    (hread : (if rest.length < bytes then none else some (getLE rest bytes, rest.drop bytes)) =
      some (size, left))
    (hfits : size ≤ left.length) (hshort : (front ++ opcode :: rest).length < 2 ^ 31) :
    (if ((front ++ opcode :: rest).length : ℤ) - (front.length + 1) < bytes then none
      else some (1 + (bytes : ℤ), toInt32 (numberAt (front ++ opcode :: rest) (front.length + 1)
        bytes))) = some (1 + (bytes : ℤ), (size : ℤ)) ∧ left.length + bytes = rest.length := by
  split at hread
  · cases hread
  next hlong =>
    cases hread
    rw [List.length_drop] at hfits
    rw [List.length_append, List.length_cons] at hshort ⊢
    rw [numberAt_append, toInt32_of_lt (by omega), if_neg (by omega), List.length_drop]
    exact ⟨rfl, by omega⟩

theorem pushDataAt_append {front rest left : Bytes} {opcode : Byte} {size : ℕ}
    (hpush : opcode ≤ OP_PUSHDATA4) (hsize : pushSize opcode rest = some (size, left))
    (hfits : size ≤ left.length) (hshort : (front ++ opcode :: rest).length < 2 ^ 31) :
    ∃ offset : ℤ, pushDataAt (front ++ opcode :: rest) front.length = some (offset, (size : ℤ)) ∧
      left.length + offset = rest.length + 1 := by
  have hinside : ∀ offset : ℤ, left.length + offset = rest.length + 1 →
      Option.filter (fun data : ℤ × ℤ => (front.length : ℤ) + data.1 + data.2 ≤
        (front ++ opcode :: rest).length) (some (offset, (size : ℤ))) = some (offset, (size : ℤ)) := by
    intro offset hoffset
    rw [Option.filter_some, if_pos]
    rw [decide_eq_true_iff, List.length_append, List.length_cons]
    omega
  unfold pushSize at hsize
  unfold pushDataAt
  rw [byteAt_append]
  dsimp only
  have hmarked : ∀ {bytes : ℕ},
      (if rest.length < bytes then none else some (getLE rest bytes, rest.drop bytes)) =
        some (size, left) →
      ∃ offset : ℤ, Option.filter (fun data : ℤ × ℤ => (front.length : ℤ) + data.1 + data.2 ≤
          (front ++ opcode :: rest).length)
        (if ((front ++ opcode :: rest).length : ℤ) - (front.length + 1) < bytes then none
          else some (1 + (bytes : ℤ), toInt32 (numberAt (front ++ opcode :: rest)
            (front.length + 1) bytes))) = some (offset, (size : ℤ)) ∧
        left.length + offset = rest.length + 1 := by
    intro bytes hread
    obtain ⟨hdata, hlength⟩ := sized_append hread hfits hshort
    rw [hdata]
    exact ⟨1 + bytes, hinside _ (by omega), by omega⟩
  by_cases hdirect : opcode < OP_PUSHDATA1
  · rw [if_pos hdirect] at hsize ⊢
    cases hsize
    exact ⟨1, hinside 1 rfl, rfl⟩
  rw [if_neg hdirect] at hsize ⊢
  by_cases hone : opcode = OP_PUSHDATA1
  · rw [if_pos hone] at hsize ⊢
    exact hmarked hsize
  rw [if_neg hone] at hsize ⊢
  by_cases htwo : opcode = OP_PUSHDATA2
  · rw [if_pos htwo] at hsize ⊢
    exact hmarked hsize
  have hfour : opcode = OP_PUSHDATA4 := by
    simp only [OP_PUSHDATA1, OP_PUSHDATA2, OP_PUSHDATA4] at *
    bv_omega
  rw [if_neg htwo, if_pos hfour] at hsize
  rw [if_neg htwo]
  exact hmarked hsize

/-- At an operation the scanner finds where the next one is. -/
theorem getPushDataElement_append {front rest : Bytes} {op : ScriptOp}
    (hop : getOp rest = some op) (hshort : (front ++ rest).length < 2 ^ 31) :
    getPushDataElement (front ++ rest) front.length = none ∧ op.rest.length + 1 = rest.length ∨
      ∃ offset size, getPushDataElement (front ++ rest) front.length = some (offset, size) ∧
        front.length + offset + size + op.rest.length = (front ++ rest).length := by
  cases rest with
  | nil => cases hop
  | cons opcode rest =>
    have hinside : ¬ ((front ++ opcode :: rest).length : ℤ) ≤ front.length := by
      rw [List.length_append, List.length_cons]
      omega
    unfold getPushDataElement
    rw [if_neg hinside, byteAt_append]
    by_cases hpush : opcode ≤ OP_PUSHDATA4
    · rw [if_pos hpush]
      rw [getOp] at hop
      cases hsize : pushSize opcode rest with
      | none =>
        rw [hsize] at hop
        cases hop
      | some read =>
        obtain ⟨size, left⟩ := read
        rw [hsize] at hop
        dsimp only at hop
        split_ifs at hop with hlong
        cases hop
        have hfits := Nat.not_lt.mp hlong
        obtain ⟨offset, hdata, hoffset⟩ := pushDataAt_append hpush hsize hfits hshort
        refine .inr ⟨offset, size, hdata, ?_⟩
        rw [List.length_drop, List.length_append, List.length_cons]
        omega
    have hplain := BitVec.not_le.mp hpush
    have hopcode : opcode = op.opcode := by simpa using getOp_opcode hop
    have hrest := congrArg List.length (eq_cons_of_plain hop (hopcode ▸ hplain))
    rw [List.length_cons, List.length_cons] at hrest
    rw [if_neg hpush]
    by_cases hsmall : OP_16 < opcode
    · rw [if_pos hsmall]
      refine .inl ⟨rfl, ?_⟩
      rw [List.length_cons]
      omega
    rw [if_neg hsmall]
    refine .inr ⟨1, 0, rfl, ?_⟩
    rw [List.length_append, List.length_cons]
    omega

theorem pushSize_suffix {opcode : Byte} {rest left : Bytes} {size : ℕ}
    (hsize : pushSize opcode rest = some (size, left)) : left <:+ rest := by
  unfold pushSize at hsize
  dsimp only at hsize
  split_ifs at hsize <;> cases hsize <;> first | exact List.suffix_rfl | exact List.drop_suffix _ _

theorem getOp_suffix {script : Bytes} {op : ScriptOp} (hop : getOp script = some op) :
    op.rest <:+ script := by
  cases script with
  | nil => cases hop
  | cons opcode rest =>
    rw [getOp] at hop
    cases hsize : pushSize opcode rest with
    | none =>
      rw [hsize] at hop
      cases hop
    | some read =>
      rw [hsize] at hop
      dsimp only at hop
      split_ifs at hop
      cases hop
      exact (List.drop_suffix _ _).trans ((pushSize_suffix hsize).trans (List.suffix_cons _ _))

/-- The scan stands in front of operations, and one of them is `OP_RETURN` or none. -/
structure Ahead (src : Bytes) (ptr : ℤ) (ops : List ScriptOp) (rest : Bytes) : Prop where
  hasOps : HasOps rest ops
  suffix : rest <:+ src
  ptr_eq : ptr + rest.length = src.length

/-- `OP_RETURN` is one of the operations. -/
def HasReturn (ops : List ScriptOp) : Prop :=
  ∃ op ∈ ops, op.opcode = OP_RETURN

theorem hasReturn_cons {op : ScriptOp} {ops : List ScriptOp} (hne : op.opcode ≠ OP_RETURN) :
    HasReturn (op :: ops) ↔ HasReturn ops := by
  unfold HasReturn
  rw [List.exists_mem_cons_iff]
  exact or_iff_right hne

variable {src : Bytes} {ptr : ℤ} {op : ScriptOp} {ops : List ScriptOp} {rest : Bytes}

theorem Ahead.exists_front (hahead : Ahead src ptr ops rest) :
    ∃ front, src = front ++ rest ∧ ptr = front.length := by
  obtain ⟨front, rfl⟩ := hahead.suffix
  have hptr := hahead.ptr_eq
  rw [List.length_append] at hptr
  exact ⟨front, rfl, by omega⟩

theorem Ahead.byteAt_eq (hahead : Ahead src ptr (op :: ops) rest) :
    ptr < src.length ∧ byteAt src ptr = op.opcode := by
  obtain ⟨front, rfl, rfl⟩ := hahead.exists_front
  obtain ⟨hop, _⟩ := hasOps_cons_iff.mp hahead.hasOps
  cases rest with
  | nil => cases hop
  | cons opcode rest =>
    have hhead : opcode = op.opcode := by simpa using getOp_opcode hop
    rw [byteAt_append, hhead, List.length_append, List.length_cons]
    exact ⟨by omega, rfl⟩

/-- A round over an operation comes to the next one. -/
theorem Ahead.next (hahead : Ahead src ptr (op :: ops) rest) (hshort : src.length < 2 ^ 31) :
    ∃ next, (getPushDataElement src ptr = none ∧ next = ptr + 1 ∨
        ∃ offset size, getPushDataElement src ptr = some (offset, size) ∧
          next = ptr + offset + size) ∧
      Ahead src next ops op.rest ∧ op.rest.length < rest.length := by
  obtain ⟨front, rfl, rfl⟩ := hahead.exists_front
  obtain ⟨hop, hops⟩ := hasOps_cons_iff.mp hahead.hasOps
  have hsuffix := (getOp_suffix hop).trans hahead.suffix
  have hlt := getOp_rest_lt hop
  rcases getPushDataElement_append hop hshort with ⟨hnone, hlength⟩ | ⟨offset, size, hdata, hend⟩
  · refine ⟨front.length + 1, .inl ⟨hnone, rfl⟩, ⟨hops, hsuffix, ?_⟩, hlt⟩
    rw [List.length_append]
    omega
  exact ⟨front.length + offset + size, .inr ⟨offset, size, hdata, rfl⟩, ⟨hops, hsuffix, hend⟩,
    hlt⟩

/-- Every round but the last comes to operations further on, with as much of `OP_RETURN`. -/
theorem Ahead.round {state : DropReturnScan} (count : ℕ)
    (hahead : Ahead src state.ptr (op :: ops) rest) (hshort : src.length < 2 ^ 31)
    (hne : op.opcode ≠ OP_RETURN) :
    ∃ next ops' rest', dropReturnRound src count state = .ok next ∧ Ahead src next.ptr ops' rest' ∧
      rest'.length < rest.length ∧ (HasReturn ops' ↔ HasReturn (op :: ops)) := by
  obtain ⟨hinside, hbyte⟩ := hahead.byteAt_eq
  obtain ⟨next, hcases, hnext, hlt⟩ := hahead.next hshort
  unfold dropReturnRound
  rw [if_neg (Int.not_le.mpr hinside), hbyte, if_neg hne, hasReturn_cons hne]
  split
  · unfold dropRound
    rcases hcases with ⟨hnone, rfl⟩ | ⟨offset, size, hdata, rfl⟩
    · rw [hnone]
      exact ⟨_, ops, op.rest, rfl, hnext, hlt, Iff.rfl⟩
    rw [hdata]
    dsimp only
    split
    next hdrop =>
      cases ops with
      | nil =>
        have hptr := hnext.ptr_eq
        rw [hasOps_nil_iff.mp hnext.hasOps] at hptr
        have hlength : (([] : Bytes).length : ℤ) = 0 := rfl
        omega
      | cons drop ops =>
        obtain ⟨_, hopcode⟩ := hnext.byteAt_eq
        obtain ⟨hop, hops⟩ := hasOps_cons_iff.mp hnext.hasOps
        have hplain : OP_PUSHDATA4 < drop.opcode := by
          rw [← hopcode, hdrop.2]
          decide
        have hne' : drop.opcode ≠ OP_RETURN := by
          rw [← hopcode, hdrop.2]
          decide
        have hlength := congrArg List.length (eq_cons_of_plain hop hplain)
        rw [List.length_cons] at hlength
        have hptr := hnext.ptr_eq
        refine ⟨_, ops, drop.rest, rfl, ⟨hops, (getOp_suffix hop).trans hnext.suffix, ?_⟩, by omega,
          (hasReturn_cons hne').symm⟩
        dsimp only
        omega
    next => exact ⟨_, ops, op.rest, rfl, hnext, hlt, Iff.rfl⟩
  unfold skipRound
  rcases hcases with ⟨hnone, rfl⟩ | ⟨offset, size, hdata, rfl⟩
  · rw [hnone]
    exact ⟨_, ops, op.rest, rfl, hnext, hlt, Iff.rfl⟩
  rw [hdata]
  rw [Int.add_assoc] at hnext
  exact ⟨_, ops, op.rest, rfl, hnext, hlt, Iff.rfl⟩

/-- The scan ends at the first `OP_RETURN`, or without any. -/
theorem parseFrom_ops (count : ℕ) {state : DropReturnScan} {fuel : ℕ}
    (hahead : Ahead src state.ptr ops rest) (hshort : src.length < 2 ^ 31)
    (hfuel : rest.length < fuel) : ∃ result, parseFrom src count fuel state = some result ∧
      (result.opReturn.isSome = true ↔ HasReturn ops) := by
  induction fuel generalizing state ops rest with
  | zero => exact absurd hfuel (Nat.not_lt_zero _)
  | succ fuel ih =>
    rw [parseFrom]
    cases ops with
    | nil =>
      have hptr := hahead.ptr_eq
      rw [hasOps_nil_iff.mp hahead.hasOps] at hptr
      have hend : (src.length : ℤ) ≤ state.ptr := by
        have hlength : (([] : Bytes).length : ℤ) = 0 := rfl
        omega
      unfold dropReturnRound
      rw [if_pos hend]
      exact ⟨_, rfl, iff_of_false Bool.false_ne_true fun hreturn => by
        obtain ⟨op, hmem, _⟩ := hreturn
        exact absurd hmem List.not_mem_nil⟩
    | cons op ops =>
      by_cases hreturn : op.opcode = OP_RETURN
      · obtain ⟨hinside, hbyte⟩ := hahead.byteAt_eq
        unfold dropReturnRound
        rw [if_neg (Int.not_le.mpr hinside), hbyte, if_pos hreturn]
        exact ⟨_, rfl, iff_of_true rfl ⟨op, (.head _), hreturn⟩⟩
      obtain ⟨next, ops', rest', hround, hnext, hlt, hsame⟩ := hahead.round count hshort hreturn
      obtain ⟨result, hparse, hiff⟩ := ih hnext (by omega)
      rw [hround]
      exact ⟨result, hparse, hiff.trans hsame⟩

/-- On a script that is read to its end both readers see the same operations. -/
theorem isUnspendable_iff {script : Bytes} (hops : HasOps script ops)
    (hshort : script.length < 2 ^ 31) : isUnspendable script = true ↔ HasReturn ops := by
  have hahead : Ahead script dropReturnStart.ptr ops script :=
    ⟨hops, List.suffix_rfl, Int.zero_add _⟩
  obtain ⟨result, hparse, hiff⟩ := @parseFrom_ops _ _ _ 2 _ ((2 + 1) * (script.length + 1)) hahead hshort
    (by omega)
  unfold isUnspendable parseOpDropOpReturnScript
  rw [hparse]
  exact hiff

end Amberchain.Interpreter
