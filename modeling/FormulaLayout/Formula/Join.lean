/-
Joining a run of formulas.

A run is joined as a balanced tree: the left part takes the larger half. So a run of `n` formulas adds only
`joinLevels n` levels above them, the logarithm of `n` rounded up.
-/
import FormulaLayout.Formula.Basic

namespace FormulaLayout.Formula

/-- the join of a run in at most `fuel` halvings; as many as there are formulas always suffice -/
def joinWithin : (fuel : Nat) → List Expr → Option Expr
  | _, [] => none
  | _, [t] => some t
  | 0, _ => none
  | fuel + 1, terms =>
    let half := (terms.length + 1) / 2
    match joinWithin fuel (terms.take half), joinWithin fuel (terms.drop half) with
    | some left, some right => some (adjoin left right)
    | _, _ => none

/-- the balanced join of a run from left to right; an empty run has none -/
def concatAll (terms : List Expr) : Option Expr :=
  joinWithin terms.length terms

/-- the join of the characters of a string; the empty string has none -/
def text (s : String) : Option Expr :=
  concatAll (s.toList.map character)

/-- the levels that a balanced join of `n` formulas adds: the logarithm to base two, rounded up -/
def joinLevels (n : Nat) : Nat :=
  (2 * n - 1).log2

end FormulaLayout.Formula
