/-
The levels and the nodes of a formula.

`depth` walks a list of pending trees and `height` recurses; they are the same number (`depth_eq_height`). The walk
carries the greatest level seen so far, and what the pending trees add to it is the greatest level that one of them
reaches (`reached`). Likewise `nodeCount` and `size`, where the pending trees add their nodes (`nodeCount_eq_size`).

A balanced join has few levels (`height_concatAll_le`): each of its halves has at most half of the run, rounded up, so
the join adds no more than the logarithm of the length, rounded up, to the levels of the highest formula. Each half also
has at least half of the run, rounded down, so the join adds at least the logarithm rounded down to the levels of any of
its formulas (`Balanced.le_height`); and the left halves are those rounded up, so it adds the logarithm rounded up to
levels that all formulas have (`Balanced.clog_le_height`).
-/
import FormulaLayout.Formula.Measures
import FormulaLayout.Proofs.Formula.Join

namespace FormulaLayout.Formula

variable {δ : Type}

/-! ## The walk over pending trees -/

/-- the height of the highest of several trees -/
def maxHeight : List (Formula δ) → Nat
  | [] => 0
  | t :: rest => max t.height (maxHeight rest)

/-- a node has one level more than its highest part -/
theorem height_children (t : Formula δ) : t.height = 1 + maxHeight t.children := by
  cases t with
  | scripts d b p s => cases p <;> cases s <;> simp [height, children, maxHeight]
  | _ => simp [height, children, maxHeight]

/-- the greatest level that pending trees reach, each from its own level on -/
def reached : List (Formula δ × Nat) → Nat
  | [] => 0
  | (t, level) :: rest => max (level + t.height - 1) (reached rest)

theorem reached_append (xs ys : List (Formula δ × Nat)) : reached (xs ++ ys) = max (reached xs) (reached ys) := by
  induction xs with
  | nil => simp [reached]
  | cons x xs ih =>
    obtain ⟨t, level⟩ := x
    simp only [List.cons_append, reached, ih, Nat.max_assoc]

/-- a node and its parts one level below it reach as far as the highest part does from the node -/
theorem reached_parts (level : Nat) (ts : List (Formula δ)) :
    max level (reached (ts.map (·, level + 1))) = level + maxHeight ts := by
  induction ts with
  | nil => simp [reached, maxHeight]
  | cons t ts ih =>
    simp only [List.map_cons, reached, maxHeight]
    omega

/-- a pending node reaches as far as its parts do in its place, or its own level if it has none -/
theorem reached_unfold (t : Formula δ) (level : Nat) (rest : List (Formula δ × Nat)) :
    max level (reached (t.children.map (·, level + 1) ++ rest)) = reached ((t, level) :: rest) := by
  have hparts := reached_parts level t.children
  have hnode := height_children t
  rw [reached_append, reached]
  omega

/-- the walk finds the greatest level among those seen and those that the pending trees reach -/
theorem deepestPending_eq (deepest : Nat) (pending : List (Formula δ × Nat)) :
    deepestPending deepest pending = max deepest (reached pending) := by
  induction deepest, pending using deepestPending.induct with
  | case1 deepest => simp [deepestPending, reached]
  | case2 deepest t level rest ih => rw [deepestPending, ih, Nat.max_assoc, reached_unfold]

/-- the walk and the recursion count the same levels -/
theorem depth_eq_height (t : Formula δ) : t.depth = t.height := by
  have hnode := height_children t
  rw [depth, deepestPending_eq]
  simp only [reached]
  omega

/-- a pending tree has one node more than its parts in its place -/
theorem totalSize_unfold (t : Formula δ) (rest : List (Formula δ)) :
    totalSize (t :: rest) = 1 + totalSize (t.children ++ rest) := by
  rw [totalSize, size_children, totalSize_append, Nat.add_assoc]

/-- the walk adds the nodes of the pending trees to those seen -/
theorem countPending_eq (count : Nat) (pending : List (Formula δ)) :
    countPending count pending = count + totalSize pending := by
  induction count, pending using countPending.induct with
  | case1 count => simp [countPending, totalSize]
  | case2 count t rest ih => rw [countPending, ih, totalSize_unfold, Nat.add_assoc]

/-- the walk and the recursion count the same nodes -/
theorem nodeCount_eq_size (t : Formula δ) : t.nodeCount = t.size := by
  rw [nodeCount, countPending_eq]
  simp [totalSize]

theorem height_pos (t : Formula δ) : 1 ≤ t.height := by
  have hnode := height_children t
  omega

/-! ## Balanced joins -/

/-- half of a run, rounded up, has one level of joins less than the run -/
theorem clog_half {n : Nat} (h : 2 ≤ n) : Nat.clog 2 n = Nat.clog 2 ((n + 1) / 2) + 1 := by
  simpa using Nat.clog_of_two_le (b := 2) Nat.one_lt_two h

theorem Balanced.height_le {terms : List Expr} {e : Expr} {n : Nat} (h : Balanced terms e)
    (hn : ∀ t ∈ terms, t.height ≤ n) : e.height ≤ Nat.clog 2 terms.length + n := by
  induction h with
  | single t => exact Nat.le_add_left_of_le (hn t (by simp))
  | @join terms l r hlen hl hr ihl ihr =>
    have hleft := ihl fun t ht => hn t (List.mem_of_mem_take ht)
    have hright := ihr fun t ht => hn t (List.mem_of_mem_drop ht)
    -- the right part is the smaller half
    have hsmaller : Nat.clog 2 (terms.drop ((terms.length + 1) / 2)).length ≤ Nat.clog 2 ((terms.length + 1) / 2) :=
      Nat.clog_mono_right 2 (by rw [List.length_drop]; omega)
    rw [List.length_take, Nat.min_eq_left (by omega)] at hleft
    rw [clog_half hlen]
    simp only [adjoin, height]
    omega

/-- **A balanced join adds the logarithm of the length of its run, rounded up**, to the levels of its formulas. -/
theorem height_concatAll_le {terms : List Expr} {e : Expr} {n : Nat} (h : concatAll terms = some e)
    (hn : ∀ t ∈ terms, t.height ≤ n) : e.height ≤ Nat.clog 2 terms.length + n :=
  (balanced_of_concatAll h).height_le hn

/-- half of a run, rounded down, has one level of joins less than the run, where these are rounded down too -/
theorem log_half {n : Nat} (h : 2 ≤ n) : Nat.log 2 n = Nat.log 2 (n / 2) + 1 :=
  Nat.log_of_one_lt_of_le Nat.one_lt_two h

/-- every formula of a run is at least as many levels below the join as the logarithm of the length, rounded down -/
theorem Balanced.le_height {terms : List Expr} {e : Expr} (h : Balanced terms e) :
    ∀ t ∈ terms, Nat.log 2 terms.length + t.height ≤ e.height := by
  induction h with
  | single t => simp
  | @join terms l r hlen hl hr ihl ihr =>
    intro t ht
    rw [log_half hlen]
    simp only [adjoin, height]
    rw [← List.take_append_drop ((terms.length + 1) / 2) terms, List.mem_append] at ht
    rcases ht with ht | ht
    · have hleft := ihl t ht
      have hlarger : Nat.log 2 (terms.length / 2) ≤ Nat.log 2 (terms.take ((terms.length + 1) / 2)).length :=
        Nat.log_mono_right (by rw [List.length_take]; omega)
      omega
    · have hright := ihr t ht
      have hrest : terms.length - (terms.length + 1) / 2 = terms.length / 2 := by omega
      rw [List.length_drop, hrest] at hright
      omega

/-- a join adds the logarithm of the length of its run, rounded up, to levels that all its formulas have -/
theorem Balanced.clog_le_height {terms : List Expr} {e : Expr} {n : Nat} (h : Balanced terms e)
    (hn : ∀ t ∈ terms, n ≤ t.height) : Nat.clog 2 terms.length + n ≤ e.height := by
  induction h with
  | single t => simpa using hn
  | @join terms l r hlen hl hr ihl ihr =>
    have hleft := ihl fun t ht => hn t (List.mem_of_mem_take ht)
    rw [List.length_take, Nat.min_eq_left (by omega)] at hleft
    rw [clog_half hlen]
    simp only [adjoin, height]
    omega

end FormulaLayout.Formula
