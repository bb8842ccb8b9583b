/-
Counts over formulas: nodes, levels and divisions.

`nodeCount` and `depth` walk a list of pending trees, so they need no deep recursion however deep the tree is;
`size` and `height` are the same numbers by recursion on the tree. The walks end because every step replaces a pending
tree by its children, which together are smaller by one node (`size_children`).
-/
import FormulaLayout.Formula.Basic

namespace FormulaLayout.Formula

variable {δ : Type}

/-- the deepest tree that is laid out -/
def maxDepth : Nat := 128

/-- the number of nodes, by recursion -/
def size : Formula δ → Nat
  | .char _ _ => 1
  | .concat _ l r => 1 + (l.size + r.size)
  | .fraction _ n m => 1 + (n.size + m.size)
  | .scripts _ b p s =>
    1 + (b.size + ((match p with | none => 0 | some p => p.size) + (match s with | none => 0 | some s => s.size)))
  | .paren _ t => 1 + t.size
termination_by structural t => t

/-- the number of levels, by recursion; a leaf has one -/
def height : Formula δ → Nat
  | .char _ _ => 1
  | .concat _ l r => 1 + max l.height r.height
  | .fraction _ n m => 1 + max n.height m.height
  | .scripts _ b p s =>
    1 + max b.height
      (max (match p with | none => 0 | some p => p.height) (match s with | none => 0 | some s => s.height))
  | .paren _ t => 1 + t.height
termination_by structural t => t

/-- the number of fractions in the tree -/
def countDivisions : Formula δ → Nat
  | .char _ _ => 0
  | .concat _ l r => l.countDivisions + r.countDivisions
  | .fraction _ n m => 1 + n.countDivisions + m.countDivisions
  | .scripts _ b p s =>
    b.countDivisions + (match p with | none => 0 | some p => p.countDivisions)
      + (match s with | none => 0 | some s => s.countDivisions)
  | .paren _ t => t.countDivisions
termination_by structural t => t

theorem size_scripts (d : δ) (b : Formula δ) (p s : Option (Formula δ)) :
    size (.scripts d b p s) = 1 + (b.size + (p.elim 0 size + s.elim 0 size)) := by
  cases p <;> cases s <;> rfl

theorem height_scripts (d : δ) (b : Formula δ) (p s : Option (Formula δ)) :
    height (.scripts d b p s) = 1 + max b.height (max (p.elim 0 height) (s.elim 0 height)) := by
  cases p <;> cases s <;> rfl

theorem countDivisions_scripts (d : δ) (b : Formula δ) (p s : Option (Formula δ)) :
    countDivisions (.scripts d b p s)
      = b.countDivisions + p.elim 0 countDivisions + s.elim 0 countDivisions := by
  cases p <;> cases s <;> rfl

/-- the nodes of several trees together -/
def totalSize : List (Formula δ) → Nat
  | [] => 0
  | t :: rest => t.size + totalSize rest

/-- the nodes of two lists of trees -/
theorem totalSize_append (xs ys : List (Formula δ)) : totalSize (xs ++ ys) = totalSize xs + totalSize ys := by
  induction xs with
  | nil => simp [totalSize]
  | cons x xs ih => simp [totalSize, ih, Nat.add_assoc]

/-- a node counts one more than its children together -/
theorem size_children (t : Formula δ) : t.size = 1 + totalSize t.children := by
  cases t with
  | scripts d b p s => cases p <;> cases s <;> simp [size, children, totalSize]
  | _ => simp [size, children, totalSize]

/-- the number of nodes of all pending trees, added to those already counted -/
def countPending (count : Nat) (pending : List (Formula δ)) : Nat :=
  match pending with
  | [] => count
  | t :: rest => countPending (count + 1) (t.children ++ rest)
termination_by totalSize pending
decreasing_by
  have := size_children t
  simp only [totalSize_append, totalSize]
  omega

/-- the greatest level reached from pending trees, each with its own level -/
def deepestPending (deepest : Nat) (pending : List (Formula δ × Nat)) : Nat :=
  match pending with
  | [] => deepest
  | (t, level) :: rest => deepestPending (max deepest level) (t.children.map (·, level + 1) ++ rest)
termination_by totalSize (pending.map Prod.fst)
decreasing_by
  have := size_children t
  simp only [List.map_append, List.map_map, Function.comp_def, List.map_id', List.map_cons, totalSize_append,
    totalSize]
  omega

/-- the number of nodes -/
def nodeCount (t : Formula δ) : Nat :=
  countPending 0 [t]

/-- the number of levels; a leaf has one -/
def depth (t : Formula δ) : Nat :=
  deepestPending 0 [(t, 1)]

end FormulaLayout.Formula
