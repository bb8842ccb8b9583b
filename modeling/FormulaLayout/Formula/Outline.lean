/-
A formula read node by node: the parent before its children, each node with its level.

The levels alone determine the branching: the children of a node are the nodes one level deeper that follow it before
the next node at its own level or above.
-/
import FormulaLayout.Formula.Basic

namespace FormulaLayout.Formula

variable {δ : Type}

/-- the nodes of a tree whose root is at the given level, in reading order -/
def outlineFrom (level : Nat) (t : Formula δ) : List (Nat × Formula δ) :=
  (level, t) ::
    match t with
    | .char _ _ => []
    | .concat _ l r => l.outlineFrom (level + 1) ++ r.outlineFrom (level + 1)
    | .fraction _ n m => n.outlineFrom (level + 1) ++ m.outlineFrom (level + 1)
    | .scripts _ b p s =>
      b.outlineFrom (level + 1) ++ (match p with | none => [] | some p => p.outlineFrom (level + 1))
        ++ (match s with | none => [] | some s => s.outlineFrom (level + 1))
    | .paren _ t => t.outlineFrom (level + 1)
termination_by structural t

/-- a node comes before its children, which are one level deeper and in order -/
theorem outlineFrom_eq (level : Nat) (t : Formula δ) :
    t.outlineFrom level = (level, t) :: t.children.flatMap (outlineFrom (level + 1)) := by
  cases t with
  | scripts d b p s => cases p <;> cases s <;> simp [outlineFrom, children]
  | _ => simp [outlineFrom, children]

/-- the nodes of a tree in reading order; the root is at level zero -/
def outline (t : Formula δ) : List (Nat × Formula δ) :=
  t.outlineFrom 0

end FormulaLayout.Formula
