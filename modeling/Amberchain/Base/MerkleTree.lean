import Mathlib.Logic.Function.Iterate
import Mathlib.Tactic.Common

/-!
# Merkle trees that pair a last node with itself

Each level pairs the nodes of the one below it, and where their number is odd the last
one is paired with itself.  Lists of different lengths can then have one root, but only
when two equal nodes end one of the levels.
-/

namespace Amberchain.MerkleTree

variable {H : Type*} (node : H → H → H)

/-- The next level. -/
def pairUp : List H → List H
  | [] => []
  | [last] => [node last last]
  | left :: right :: rest => node left right :: pairUp rest

theorem length_pairUp (level : List H) : (pairUp node level).length = (level.length + 1) / 2 := by
  induction level using pairUp.induct with
  | case1 => simp only [pairUp, List.length_nil]
  | case2 last => simp only [pairUp, List.length_singleton]
  | case3 left right rest ih =>
    rw [pairUp, List.length_cons, List.length_cons, List.length_cons]
    omega

def tree (level : List H) : List H :=
  if level.length ≤ 1 then level else level ++ tree (pairUp node level)
termination_by level.length
decreasing_by
  rw [length_pairUp]
  omega

/-- Two equal nodes end a level and are paired with each other. -/
def endsTwice [DecidableEq H] : List H → Bool
  | [] => false
  | [_] => false
  | [left, right] => left = right
  | _ :: _ :: rest => endsTwice rest

def mutated [DecidableEq H] (level : List H) : Bool :=
  if level.length ≤ 1 then false else endsTwice level || mutated (pairUp node level)
termination_by level.length
decreasing_by
  rw [length_pairUp]
  omega

def root? (level : List H) : Option H :=
  (tree node level).getLast?

variable {node} {first second : List H}

variable {level : List H}

theorem pairUp_ne_nil (hne : level ≠ []) : pairUp node level ≠ [] := by
  cases level with
  | nil => exact absurd rfl hne
  | cons head tail =>
    cases tail with
    | nil => exact List.cons_ne_nil _ _
    | cons next rest => exact List.cons_ne_nil _ _

theorem tree_ne_nil (hne : level ≠ []) : tree node level ≠ [] := by
  unfold tree
  split
  · exact hne
  exact List.append_ne_nil_of_left_ne_nil hne _

theorem root?_pairUp (hlength : 1 < level.length) :
    root? node (pairUp node level) = root? node level := by
  have hne : level ≠ [] := List.ne_nil_of_length_pos (Nat.zero_lt_of_lt hlength)
  unfold root?
  conv_rhs => unfold tree
  rw [if_neg (Nat.not_le.mpr hlength), List.getLast?_append]
  cases hlast : (tree node (pairUp node level)).getLast? with
  | none =>
    exact absurd (List.getLast?_eq_none_iff.mp hlast) (tree_ne_nil (pairUp_ne_nil hne))
  | some root => rfl

theorem root?_of_le (hlength : level.length ≤ 1) : root? node level = level.getLast? := by
  unfold root? tree
  rw [if_pos hlength]

theorem pairUp_repeat_last {front : List H} (hfront : front.length % 2 = 0) (last : H) :
    pairUp node (front ++ [last, last]) = pairUp node (front ++ [last]) := by
  induction front using pairUp.induct with
  | case1 => rfl
  | case2 other => cases hfront
  | case3 left right rest ih =>
    rw [List.length_cons, List.length_cons] at hfront
    rw [List.cons_append, List.cons_append, List.cons_append, List.cons_append, pairUp, pairUp,
      ih (by omega)]

theorem root?_repeat_last {front : List H} (hfront : front.length % 2 = 0) (hne : front ≠ [])
    (last : H) : root? node (front ++ [last, last]) = root? node (front ++ [last]) := by
  have hpos := List.length_pos_iff.mpr hne
  rw [← root?_pairUp (by rw [List.length_append]; omega),
    pairUp_repeat_last hfront,
    root?_pairUp (by rw [List.length_append]; omega)]

variable (hnode : Function.Injective2 node)

include hnode

theorem pairUp_injective (hlength : first.length = second.length)
    (hpairs : pairUp node first = pairUp node second) : first = second := by
  induction first using pairUp.induct generalizing second with
  | case1 => exact (List.length_eq_zero_iff.mp hlength.symm).symm
  | case2 last =>
    obtain ⟨other, rfl⟩ := List.length_eq_one_iff.mp hlength.symm
    rw [(hnode (List.cons.inj hpairs).1).1]
  | case3 left right rest ih =>
    cases second with
    | nil => cases hlength
    | cons left' tail =>
      cases tail with
      | nil => cases hlength
      | cons right' rest' =>
        obtain ⟨hleft, hright⟩ := hnode (List.cons.inj hpairs).1
        rw [hleft, hright, ih (by simpa using hlength) (List.cons.inj hpairs).2]

theorem eq_of_root_of_length (hlength : first.length = second.length)
    (hroot : root? node first = root? node second) : first = second := by
  induction first using tree.induct node generalizing second with
  | case1 first hle =>
    rw [root?_of_le hle, root?_of_le (hlength ▸ hle)] at hroot
    cases first with
    | nil => exact (List.length_eq_zero_iff.mp hlength.symm).symm
    | cons head tail =>
      have htail : tail = [] := List.length_eq_zero_iff.mp (by simpa using hle)
      subst htail
      obtain ⟨other, rfl⟩ := List.length_eq_one_iff.mp hlength.symm
      exact congrArg (fun last => [last]) (Option.some.inj hroot)
  | case2 first hle ih =>
    have hlt := Nat.not_le.mp hle
    have hlt' : 1 < second.length := hlength ▸ hlt
    rw [← root?_pairUp hlt, ← root?_pairUp hlt'] at hroot
    exact pairUp_injective hnode hlength (ih (by rw [length_pairUp, length_pairUp, hlength]) hroot)

/-- Lists of one next level are the same unless one ends with two equal nodes. -/
theorem eq_or_endsTwice [DecidableEq H] (hpairs : pairUp node first = pairUp node second) :
    first = second ∨ endsTwice first = true ∨ endsTwice second = true := by
  induction first using pairUp.induct generalizing second with
  | case1 =>
    cases second with
    | nil => exact .inl rfl
    | cons head tail =>
      exact absurd hpairs.symm (pairUp_ne_nil (List.cons_ne_nil head tail))
  | case2 last =>
    match second with
    | [] => cases hpairs
    | [other] => exact .inl (by rw [(hnode (List.cons.inj hpairs).1).1])
    | [left, right] =>
      obtain ⟨hleft, hright⟩ := hnode (List.cons.inj hpairs).1
      exact .inr (.inr (decide_eq_true (hleft.symm.trans hright)))
    | left :: right :: head :: rest =>
      exact absurd (List.cons.inj hpairs).2.symm (pairUp_ne_nil (List.cons_ne_nil head rest))
  | case3 left right rest ih =>
    match second with
    | [] => cases hpairs
    | [last] =>
      obtain ⟨hleft, hright⟩ := hnode (List.cons.inj hpairs).1
      have hrest : rest = [] := by
        by_contra hne
        exact pairUp_ne_nil hne (List.cons.inj hpairs).2
      subst hrest
      exact .inr (.inl (decide_eq_true (hleft.trans hright.symm)))
    | left' :: right' :: rest' =>
      obtain ⟨hleft, hright⟩ := hnode (List.cons.inj hpairs).1
      have hends : ∀ (head next : H) (tail : List H), endsTwice tail = true →
          endsTwice (head :: next :: tail) = true := by
        intro head next tail htwice
        cases tail with
        | nil => cases htwice
        | cons third tail => exact htwice
      rcases ih (List.cons.inj hpairs).2 with heq | hfirst | hsecond
      · exact .inl (by rw [hleft, hright, heq])
      · exact .inr (.inl (hends left right rest hfirst))
      exact .inr (.inr (hends left' right' rest' hsecond))

omit hnode

variable (node) in
def inner (level : List H) : List H :=
  (tree node level).drop level.length

variable (node) in
/-- The number of levels above the lowest one. -/
def depth (level : List H) : ℕ :=
  if level.length ≤ 1 then 0 else depth (pairUp node level) + 1
termination_by level.length
decreasing_by
  rw [length_pairUp]
  omega

theorem exists_node_of_mem_pairUp {hash : H} (hmem : hash ∈ pairUp node level) :
    ∃ left right, hash = node left right := by
  induction level using pairUp.induct with
  | case1 => exact absurd hmem List.not_mem_nil
  | case2 last => exact ⟨last, last, List.mem_singleton.mp hmem⟩
  | case3 left right rest ih =>
    cases List.mem_cons.mp hmem with
    | inl hhead => exact ⟨left, right, hhead⟩
    | inr htail => exact ih htail

theorem inner_eq (hlength : 1 < level.length) :
    inner node level = tree node (pairUp node level) := by
  unfold inner
  conv_lhs => unfold tree
  rw [if_neg (Nat.not_le.mpr hlength), List.drop_left]

theorem mem_tree {hash : H} : hash ∈ tree node level ↔ hash ∈ level ∨ hash ∈ inner node level := by
  by_cases hlength : level.length ≤ 1
  · unfold inner tree
    rw [if_pos hlength]
    simp
  rw [inner_eq (Nat.not_le.mp hlength)]
  conv_lhs => unfold tree
  rw [if_neg hlength, List.mem_append]

theorem exists_node_of_mem_inner {hash : H} (hmem : hash ∈ inner node level) :
    ∃ left right, hash = node left right := by
  induction level using tree.induct node with
  | case1 level hle =>
    unfold inner tree at hmem
    rw [if_pos hle, List.drop_length] at hmem
    exact absurd hmem List.not_mem_nil
  | case2 level hle ih =>
    rw [inner_eq (Nat.not_le.mp hle)] at hmem
    cases mem_tree.mp hmem with
    | inl hpairs => exact exists_node_of_mem_pairUp hpairs
    | inr habove => exact ih habove

theorem iterate_depth {level : List H} (hne : level ≠ []) :
    ∃ root, (pairUp node)^[depth node level] level = [root] ∧ root? node level = some root := by
  induction level using tree.induct node with
  | case1 level hle =>
    obtain ⟨root, hroot⟩ : ∃ root, level = [root] :=
      List.length_eq_one_iff.mp (Nat.le_antisymm hle (List.length_pos_iff.mpr hne))
    subst hroot
    refine ⟨root, ?_, root?_of_le hle⟩
    unfold depth
    rfl
  | case2 level hle ih =>
    obtain ⟨root, hlast, hroot⟩ := ih (pairUp_ne_nil hne)
    refine ⟨root, ?_, (root?_pairUp (Nat.not_le.mp hle)).symm.trans hroot⟩
    unfold depth
    rw [if_neg hle, Function.iterate_succ_apply, hlast]

/-- The levels above the lowest one are part of the tree. -/
theorem mem_inner_of_iterate {k : ℕ} (hk : k < depth node level) {hash : H}
    (hmem : hash ∈ (pairUp node)^[k + 1] level) : hash ∈ inner node level := by
  induction level using tree.induct node generalizing k with
  | case1 level hle =>
    unfold depth at hk
    rw [if_pos hle] at hk
    cases hk
  | case2 level hle ih =>
    unfold depth at hk
    rw [if_neg hle] at hk
    rw [inner_eq (Nat.not_le.mp hle), mem_tree]
    cases k with
    | zero => exact .inl hmem
    | succ k => exact .inr (ih (Nat.lt_of_succ_lt_succ hk) hmem)

theorem endsTwice_of_le [DecidableEq H] {level : List H} (hle : level.length ≤ 1) :
    endsTwice level = false := by
  match level, hle with
  | [], _ => rfl
  | [_], _ => rfl

theorem endsTwice_iterate [DecidableEq H] {level : List H}
    (hmutated : mutated node level = false) (k : ℕ) :
    endsTwice ((pairUp node)^[k] level) = false := by
  induction level using tree.induct node generalizing k with
  | case1 level hle =>
    have hlength : ∀ k, ((pairUp node)^[k] level).length ≤ 1 := by
      intro k
      induction k with
      | zero => exact hle
      | succ k ih =>
        rw [Function.iterate_succ_apply', length_pairUp]
        omega
    exact endsTwice_of_le (hlength k)
  | case2 level hle ih =>
    unfold mutated at hmutated
    rw [if_neg hle, Bool.or_eq_false_iff] at hmutated
    cases k with
    | zero => exact hmutated.1
    | succ k => exact ih hmutated.2 k

include hnode

/-- Lists with one level above them are the same if no level ends with two equal nodes. -/
theorem eq_of_iterate [DecidableEq H] (hmutated : mutated node first = false) {k more : ℕ}
    (hmutated' : mutated node second = false)
    (hlevel : (pairUp node)^[k] first = (pairUp node)^[k + more] second) :
    first = (pairUp node)^[more] second := by
  have hdown : ∀ j, j ≤ k →
      (pairUp node)^[k - j] first = (pairUp node)^[k - j + more] second := by
    intro j
    induction j with
    | zero => exact fun _ => hlevel
    | succ j ih =>
      intro hj
      have habove := ih (by omega)
      rw [show k - j = k - (j + 1) + 1 by omega, Function.iterate_succ_apply',
        show k - (j + 1) + 1 + more = k - (j + 1) + more + 1 by omega,
        Function.iterate_succ_apply'] at habove
      rcases eq_or_endsTwice hnode habove with heq | htwice | htwice
      · exact heq
      · exact absurd (endsTwice_iterate hmutated _) (by rw [htwice]; exact Bool.noConfusion)
      · exact absurd (endsTwice_iterate hmutated' _) (by rw [htwice]; exact Bool.noConfusion)
  simpa using hdown k (Nat.le_refl k)

/-- Lists that are not mutated and have one root are the same, if the nodes of neither one
are inner nodes of the other. -/
theorem eq_of_root_of_not_mutated [DecidableEq H] (hne : first ≠ []) (hne' : second ≠ [])
    (hfirst : ∀ hash ∈ first, hash ∉ inner node second)
    (hsecond : ∀ hash ∈ second, hash ∉ inner node first)
    (hmutated : mutated node first = false) (hmutated' : mutated node second = false)
    (hroot : root? node first = root? node second) : first = second := by
  wlog hdepth : depth node first ≤ depth node second generalizing first second
  · exact (this hne' hne hsecond hfirst hmutated' hmutated hroot.symm
      (Nat.le_of_not_le hdepth)).symm
  obtain ⟨root, hlast, hsome⟩ := @iterate_depth H node first hne
  obtain ⟨root', hlast', hsome'⟩ := @iterate_depth H node second hne'
  rw [hsome, hsome'] at hroot
  cases hroot
  obtain ⟨more, hmore⟩ := Nat.exists_eq_add_of_le hdepth
  have hlevel := @eq_of_iterate H node first second hnode _ hmutated (depth node first) more hmutated'
    (by rw [hlast, ← hmore, hlast'])
  cases more with
  | zero => exact hlevel
  | succ more =>
    obtain ⟨head, tail, hcons⟩ := List.exists_cons_of_ne_nil hne
    have hhead : head ∈ first := hcons ▸ (.head _)
    exact absurd (mem_inner_of_iterate (by omega) (hlevel ▸ hhead)) (hfirst head hhead)

omit hnode

variable (node)

/-- The next level, node by node. -/
theorem pairUp_eq_map (level : List H) (default : H) :
    pairUp node level = (List.range ((level.length + 1) / 2)).map fun half =>
      node (level.getD (2 * half) default)
        (level.getD (min (2 * half + 1) (level.length - 1)) default) := by
  induction level using pairUp.induct with
  | case1 => simp [pairUp]
  | case2 last => simp [pairUp]
  | case3 left right rest ih =>
    rw [pairUp, ih, List.length_cons, List.length_cons,
      show (rest.length + 1 + 1 + 1) / 2 = (rest.length + 1) / 2 + 1 by omega,
      List.range_succ_eq_map, List.map_cons, List.map_map]
    refine congrArg₂ _ ?_ (List.map_congr_left fun half hhalf => ?_)
    · rfl
    have hlt := List.mem_range.mp hhalf
    rw [Function.comp_apply, show 2 * half.succ = 2 * half + 2 by omega,
      show min (2 * half + 2 + 1) (rest.length + 1 + 1 - 1) =
        min (2 * half + 1) (rest.length - 1) + 2 by omega]
    rfl

theorem endsTwice_eq_any [DecidableEq H] (level : List H) (default : H) :
    endsTwice level = (List.range ((level.length + 1) / 2)).any fun half =>
      min (2 * half + 1) (level.length - 1) = 2 * half + 1 ∧
        min (2 * half + 1) (level.length - 1) + 1 = level.length ∧ level.getD (2 * half) default =
          level.getD (min (2 * half + 1) (level.length - 1)) default := by
  induction level using endsTwice.induct with
  | case1 => simp [endsTwice]
  | case2 last => simp [endsTwice]
  | case3 left right => simp [endsTwice]
  | case4 left right rest hrest ih =>
    have hne : rest ≠ [] := hrest
    have hpos := List.length_pos_iff.mpr hne
    rw [endsTwice, ih, List.length_cons, List.length_cons,
      show (rest.length + 1 + 1 + 1) / 2 = (rest.length + 1) / 2 + 1 by omega,
      List.range_succ_eq_map, List.any_cons, List.any_map]
    · have hfirst : ¬ min (2 * 0 + 1) (rest.length + 1 + 1 - 1) + 1 = rest.length + 1 + 1 := by
        omega
      rw [decide_eq_false (fun hall => hfirst hall.2.1)]
      congr 1
      funext half
      have hmin : min (2 * half + 2 + 1) (rest.length + 1 + 1 - 1) =
          min (2 * half + 1) (rest.length - 1) + 2 := by omega
      rw [Function.comp_apply, show 2 * half.succ = 2 * half + 2 by omega, hmin]
      exact decide_eq_decide.mpr (and_congr (by omega) (and_congr (by omega) Iff.rfl))
    exact hrest

end Amberchain.MerkleTree
