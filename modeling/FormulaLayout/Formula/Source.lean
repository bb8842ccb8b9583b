/-
The notation of a formula.

A glyph stands for itself, neighbours are written without a space, a fraction with a slash, parentheses as themselves,
and scripts behind the base with their markers; an empty slot leaves out its marker. Braces that only group are not
written, so the text of a formula need not read back as the same formula.
-/
import FormulaLayout.Formula.Basic

namespace FormulaLayout.Formula

variable {δ : Type}

/-- the characters of a formula's notation -/
def source : Formula δ → List Char
  | .char _ c => [c]
  | .concat _ l r => l.source ++ r.source
  | .fraction _ n m => n.source ++ '/' :: m.source
  | .scripts _ b p s =>
    b.source ++ (match p with | none => [] | some p => '^' :: p.source)
      ++ (match s with | none => [] | some s => '_' :: s.source)
  | .paren _ t => '(' :: t.source ++ [')']
termination_by structural t => t

theorem source_scripts (d : δ) (b : Formula δ) (p s : Option (Formula δ)) :
    source (.scripts d b p s) = b.source ++ p.elim [] ('^' :: source ·) ++ s.elim [] ('_' :: source ·) := by
  cases p <;> cases s <;> rfl

/-- the notation of a formula -/
def value (t : Formula δ) : String :=
  String.ofList t.source

end FormulaLayout.Formula
