/-
What the join of a run keeps.

A join of two formulas writes them one after the other, and it has the nodes and the fractions of both, and one node more.
So these are the same for every grouping of a run: its text is that of the formulas in order, and a measure to which each
join adds the same amount is the sum over the run and that amount once less than there are formulas
(`Grouping.measure_eq`, by induction over the grouping).

The levels do depend on the grouping. The balanced join adds the logarithm of the length, rounded up, which is counted as
the zeros at the end of the least power of two that the length does not exceed (`isLeast_powerOfTwo`,
`trailingZeros_powerOfTwo`).

- `concatAll_keeps_run`: what the balanced join of a run has of its formulas, and how many levels more.
-/
import Mathlib
import FormulaLayout.Proofs.Formula.Levels

namespace FormulaLayout.Formula

/-- what a join has of the formulas of its run, and how many levels more than they have -/
structure Keeps (terms : List Expr) (e : Expr) : Prop where
  value_eq : e.value = String.join (terms.map value)
  nodeCount_eq : e.nodeCount = (terms.map nodeCount).sum + (terms.length - 1)
  countDivisions_eq : e.countDivisions = (terms.map countDivisions).sum
  depth_le : ∀ n, (∀ t ∈ terms, t.depth ≤ n) → e.depth ≤ n + joinLevels terms.length
  depth_eq : ∀ n, (∀ t ∈ terms, t.depth = n) → e.depth = n + joinLevels terms.length

/-! ## Any grouping -/

section

variable {terms : List Expr} {e : Expr}

theorem Grouping.value_eq (h : Grouping terms e) : e.value = String.join (terms.map value) := by
  apply String.toList_inj.1
  simp [value, h.source_eq, String.toList_join, List.flatMap_map]

/-- a measure to which every join of two formulas adds the same amount -/
theorem Grouping.measure_eq {measure : Expr → Nat} {added : Nat}
    (hjoin : ∀ l r, measure (adjoin l r) = measure l + measure r + added) (h : Grouping terms e) :
    measure e = (terms.map measure).sum + (terms.length - 1) * added := by
  induction h with
  | single t => simp
  | @join ts us l r hl hr ihl ihr =>
    have hts := List.length_pos_iff.2 hl.ne_nil
    have hus := List.length_pos_iff.2 hr.ne_nil
    have hjoins : ts.length + us.length - 1 = (ts.length - 1) + (us.length - 1) + 1 := by omega
    rw [hjoin, ihl, ihr, List.map_append, List.sum_append, List.length_append, hjoins]
    ring

theorem Grouping.nodeCount_eq (h : Grouping terms e) :
    e.nodeCount = (terms.map nodeCount).sum + (terms.length - 1) := by
  have hjoin : ∀ l r : Expr, nodeCount (adjoin l r) = l.nodeCount + r.nodeCount + 1 := by
    intro l r
    simp only [nodeCount_eq_size, adjoin, size, Nat.add_comm]
  simpa using h.measure_eq hjoin

theorem Grouping.countDivisions_eq (h : Grouping terms e) :
    e.countDivisions = (terms.map countDivisions).sum := by
  have hjoin : ∀ l r : Expr, countDivisions (adjoin l r) = l.countDivisions + r.countDivisions + 0 := fun _ _ => rfl
  simpa using h.measure_eq hjoin

/-! ## The balanced join -/

theorem Balanced.keeps (h : Balanced terms e) : Keeps terms e where
  value_eq := h.grouping.value_eq
  nodeCount_eq := h.grouping.nodeCount_eq
  countDivisions_eq := h.grouping.countDivisions_eq
  depth_le n hn := by
    simp only [depth_eq_height] at hn ⊢
    rw [joinLevels_eq_clog, Nat.add_comm]
    exact h.height_le hn
  depth_eq n hn := by
    simp only [depth_eq_height] at hn ⊢
    rw [joinLevels_eq_clog, Nat.add_comm]
    apply Nat.le_antisymm
    · exact h.height_le fun t ht => (hn t ht).le
    · exact h.clog_le_height fun t ht => (hn t ht).ge

end

/-- the logarithm rounded up is the exponent of the least power of two that is not exceeded -/
theorem isLeast_powerOfTwo (n : Nat) : IsLeast {p | p.isPowerOfTwo ∧ n ≤ p} (2 ^ Nat.clog 2 n) := by
  constructor
  · exact ⟨⟨_, rfl⟩, Nat.le_pow_clog Nat.one_lt_two n⟩
  · rintro p ⟨⟨k, rfl⟩, hk⟩
    exact Nat.pow_le_pow_right Nat.two_pos (Nat.clog_le_of_le_pow hk)

theorem trailingZeros_powerOfTwo (k : Nat) : Int.trailingZeros (2 ^ k : Nat) = k := by
  induction k with
  | zero => rfl
  | succ k ih =>
    have hdouble : ((2 ^ (k + 1) : Nat) : Int) = 2 * (2 ^ k : Nat) := by push_cast; ring
    rw [hdouble, Int.trailingZeros_two_mul (by positivity), ih]

/-- **The join of a run keeps its order and is balanced.** It is written as its formulas in order, has their nodes and one
for each join, and their fractions. It has at most `joinLevels` levels more than the deepest of them, and exactly as many
more where all are equally deep: the logarithm of the length to base two, rounded up, which is the number of zeros at the
end of the least power of two that is at least the length. -/
theorem concatAll_keeps_run :
    concatAll [] = none ∧
      (∀ (first : Expr) (rest : List Expr), ∃ e, concatAll (first :: rest) = some e ∧ Keeps (first :: rest) e) ∧
        ∀ n, joinLevels n = Nat.clog 2 n ∧
          ∃ p, IsLeast {p | p.isPowerOfTwo ∧ n ≤ p} p ∧ joinLevels n = Int.trailingZeros p := by
  refine ⟨rfl, ?_, ?_⟩
  · intro first rest
    obtain ⟨e, he⟩ := concatAll_isSome (List.cons_ne_nil first rest)
    exact ⟨e, he, (balanced_of_concatAll he).keeps⟩
  · intro n
    refine ⟨joinLevels_eq_clog n, 2 ^ Nat.clog 2 n, isLeast_powerOfTwo n, ?_⟩
    rw [trailingZeros_powerOfTwo, joinLevels_eq_clog]

/-- five formulas are one more than two levels of joins hold -/
example : (concatAll ("abcde".toList.map character)).map depth = some (1 + 3) := by
  decide +kernel

end FormulaLayout.Formula
