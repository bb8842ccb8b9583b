/-
Walks over a tree, in whatever order they visit its nodes.

A walk holds pending trees, each with the level of its root, and goes on in rounds while there are any. A round takes
one of them, counts its root, notes its level, and leaves the parts pending in its place, one level further down
(`Round`). Which tree it takes is left open: a stack takes the last one (`Round.top`), `nodeCount` and `depth` take the
first one (`rounds_pending`), and a walk may take them in any other order.

The order makes no difference to what rounds do (`Walk.Goes`). Each counts one node, and one node less is ahead; and the
greatest level, of those noted and those that the pending trees reach, stays the same. By induction over the rounds, a
walk of n rounds has n nodes less ahead (`Rounds.goes`). So it ends after as many rounds as the tree has nodes, and
where nothing is pending any more the count and the level are those of the whole tree (`Rounds.end_eq`).

- `walks_count_nodes_and_levels`: every walk ends, with the numbers that recursion over the parts gives.
-/
import FormulaLayout.Proofs.Formula.Levels

namespace FormulaLayout.Formula

variable {δ : Type}

/-! ## The numbers by recursion on the parts -/

theorem totalSize_eq_sum (ts : List (Formula δ)) : totalSize ts = (ts.map size).sum := by
  induction ts with
  | nil => rfl
  | cons t ts ih => rw [totalSize, ih, List.map_cons, List.sum_cons]

theorem maxHeight_eq_foldr (ts : List (Formula δ)) : maxHeight ts = (ts.map height).foldr max 0 := by
  induction ts with
  | nil => rfl
  | cons t ts ih => rw [maxHeight, ih, List.map_cons, List.foldr_cons]

/-! ## Walks and their rounds -/

/-- a walk under way: the nodes counted, the greatest level noted, and the trees that are pending -/
structure Walk (δ : Type) where
  visited : Nat
  deepest : Nat
  pending : List (Formula δ × Nat)

namespace Walk

/-- the walk over a tree, before its first round -/
def start (t : Formula δ) : Walk δ :=
  ⟨0, 0, [(t, 1)]⟩

/-- the nodes that have not been counted yet -/
def ahead (w : Walk δ) : Nat :=
  totalSize (w.pending.map Prod.fst)

theorem ahead_start (t : Formula δ) : (start t).ahead = t.size := rfl

/-- the greatest level that has been noted or will be -/
def levels (w : Walk δ) : Nat :=
  max w.deepest (reached w.pending)

theorem levels_start (t : Formula δ) : (start t).levels = t.height := by
  simp only [start, levels, reached]
  omega

end Walk

/-- one round: a pending tree, wherever it stands, makes way for its parts -/
inductive Round : Walk δ → Walk δ → Prop
  | take (visited deepest : Nat) (before after : List (Formula δ × Nat)) (t : Formula δ) (level : Nat) :
    Round ⟨visited, deepest, before ++ (t, level) :: after⟩
      ⟨visited + 1, max deepest level, before ++ (t.children.map (·, level + 1) ++ after)⟩

/-- a number of rounds, one after the other -/
inductive Rounds : Nat → Walk δ → Walk δ → Prop
  | none (w : Walk δ) : Rounds 0 w w
  | next {n : Nat} {w w' w'' : Walk δ} (first : Round w w') (others : Rounds n w' w'') : Rounds (n + 1) w w''

/-- a stack has its top at the end: the last tree is taken, and its parts are put on top one after the other -/
theorem Round.top (visited deepest : Nat) (below : List (Formula δ × Nat)) (t : Formula δ) (level : Nat) :
    Round ⟨visited, deepest, below ++ [(t, level)]⟩
      ⟨visited + 1, max deepest level, below ++ t.children.map (·, level + 1)⟩ := by
  simpa using Round.take visited deepest below [] t level

/-- a round can be made while a tree is pending, and not any more when none is -/
theorem exists_round_iff {w : Walk δ} : (∃ w', Round w w') ↔ w.pending ≠ [] := by
  constructor
  · rintro ⟨_, ⟨visited, deepest, before, after, t, level⟩⟩
    simp
  · intro hpending
    obtain ⟨visited, deepest, pending⟩ := w
    obtain ⟨below, ⟨t, level⟩, rfl⟩ := (List.eq_nil_or_concat' pending).resolve_left hpending
    exact ⟨_, Round.top visited deepest below t level⟩

/-! ## What rounds keep -/

/-- what a number of rounds does to a walk, in whatever order they take the trees -/
structure Walk.Goes (n : Nat) (w w' : Walk δ) : Prop where
  visited : w'.visited = w.visited + n
  ahead : w.ahead = n + w'.ahead
  levels : w'.levels = w.levels

theorem Walk.Goes.refl (w : Walk δ) : w.Goes 0 w :=
  ⟨rfl, (Nat.zero_add _).symm, rfl⟩

theorem Walk.Goes.trans {m n : Nat} {w w' w'' : Walk δ} (h : w.Goes m w') (h' : w'.Goes n w'') :
    w.Goes (m + n) w'' where
  visited := by rw [h'.visited, h.visited, Nat.add_assoc]
  ahead := by rw [h.ahead, h'.ahead, Nat.add_assoc]
  levels := h'.levels.trans h.levels

theorem Round.goes {w w' : Walk δ} (h : Round w w') : w.Goes 1 w' := by
  obtain ⟨visited, deepest, before, after, t, level⟩ := h
  refine ⟨rfl, ?_, ?_⟩
  · have hnodes := totalSize_unfold t (after.map Prod.fst)
    simp only [Walk.ahead, List.map_append, List.map_cons, List.map_map, Function.comp_def, List.map_id',
      totalSize_append] at hnodes ⊢
    omega
  · have hreached := reached_unfold t level after
    simp only [Walk.levels, reached_append] at hreached ⊢
    omega

theorem Rounds.goes {n : Nat} {w w' : Walk δ} (h : Rounds n w w') : w.Goes n w' := by
  induction h with
  | none w => exact Walk.Goes.refl w
  | @next n w w' w'' first others ih =>
    rw [Nat.add_comm]
    exact first.goes.trans ih

/-- a walk that has nothing pending any more has counted the whole tree -/
theorem Rounds.end_eq {n : Nat} {t : Formula δ} {w : Walk δ} (h : Rounds n (.start t) w) (hend : w.pending = []) :
    w = ⟨t.size, t.height, []⟩ := by
  obtain ⟨visited, deepest, pending⟩ := w
  obtain rfl : pending = [] := hend
  have hrounds : t.size = n := h.goes.ahead
  have hvisited : visited = 0 + n := h.goes.visited
  have hlevels : max deepest 0 = t.height := h.goes.levels.trans (Walk.levels_start t)
  rw [hvisited, hrounds, ← hlevels, Nat.zero_add, Nat.max_zero]

/-! ## The two counts as one walk -/

/-- `countPending` and `deepestPending` are a walk to its end that takes the first tree in each round -/
theorem rounds_pending (visited deepest : Nat) (pending : List (Formula δ × Nat)) :
    Rounds (totalSize (pending.map Prod.fst)) ⟨visited, deepest, pending⟩
      ⟨countPending visited (pending.map Prod.fst), deepestPending deepest pending, []⟩ := by
  induction deepest, pending using deepestPending.induct generalizing visited with
  | case1 deepest =>
    simp only [List.map_nil, totalSize, countPending, deepestPending]
    exact Rounds.none _
  | case2 deepest t level rest ih =>
    have hothers := ih (visited + 1)
    simp only [List.map_append, List.map_map, Function.comp_def, List.map_id'] at hothers
    rw [List.map_cons, totalSize_unfold, Nat.add_comm, countPending, deepestPending]
    exact Rounds.next (Round.take visited deepest [] rest t level) hothers

/-- **Walks count the nodes and the levels of every tree.** `nodeCount` is one more than the sum over the parts that
are there, and `depth` is one more than the maximum over them, or one if there are none.

They are the count and the level of a walk from the tree to its end. No walk makes more rounds than the tree has nodes,
whichever trees they take, and one that cannot make another round has these two numbers. -/
theorem walks_count_nodes_and_levels (t : Formula δ) :
    (t.nodeCount = t.size ∧ t.size = 1 + (t.children.map size).sum) ∧
      (t.depth = t.height ∧ t.height = 1 + (t.children.map height).foldr max 0) ∧
        Rounds t.nodeCount (.start t) ⟨t.nodeCount, t.depth, []⟩ ∧
          ∀ (n : Nat) (w : Walk δ), Rounds n (.start t) w →
            n ≤ t.nodeCount ∧ ((¬ ∃ w', Round w w') ↔ w = ⟨t.nodeCount, t.depth, []⟩) := by
  have hnodes : t.nodeCount = t.size := nodeCount_eq_size t
  have hlevels : t.depth = t.height := depth_eq_height t
  refine ⟨⟨hnodes, ?_⟩, ⟨hlevels, ?_⟩, ?_, ?_⟩
  · rw [size_children, totalSize_eq_sum]
  · rw [height_children, maxHeight_eq_foldr]
  · have hwalk : Rounds (Walk.start t).ahead (.start t) ⟨t.nodeCount, t.depth, []⟩ := rounds_pending 0 0 [(t, 1)]
    rwa [Walk.ahead_start, ← hnodes] at hwalk
  · intro n w hwalk
    constructor
    · have hahead := hwalk.goes.ahead
      rw [Walk.ahead_start] at hahead
      omega
    · rw [exists_round_iff, not_not, hnodes, hlevels]
      constructor
      · intro hend
        exact hwalk.end_eq hend
      · rintro rfl
        rfl

end FormulaLayout.Formula
