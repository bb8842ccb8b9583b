/-
Formulas whose nodes know their scale and the fractions below them.

Scales go from the root down: a script has the scale of its base times a fixed ratio, every other child the scale of its
parent. Fractions are counted from the leaves up.
-/
import FormulaLayout.Formula.Basic
import FormulaLayout.Layout.Metrics

namespace FormulaLayout

/-- the font size of a node and the number of fractions in its tree -/
structure Scaled (α : Type) where
  scale : α
  divisions : Nat
  deriving BEq

variable {α δ : Type} [Scalar α]

/-- the formula with the given scale at its root -/
def Formula.scaled (scale : α) : Formula δ → Formula (Scaled α)
  | .char _ c => .char ⟨scale, 0⟩ c
  | .concat _ l r =>
    let left := l.scaled scale
    let right := r.scaled scale
    .concat ⟨scale, left.datum.divisions + right.datum.divisions⟩ left right
  | .fraction _ n m =>
    let numerator := n.scaled scale
    let denominator := m.scaled scale
    .fraction ⟨scale, 1 + numerator.datum.divisions + denominator.datum.divisions⟩ numerator denominator
  | .scripts _ b p s =>
    let scriptScale := scale * Metrics.scriptScale
    let base := b.scaled scale
    let superscript := match p with | none => none | some p => some (p.scaled scriptScale)
    let subscript := match s with | none => none | some s => some (s.scaled scriptScale)
    .scripts
      ⟨scale, base.datum.divisions + superscript.elim 0 (·.datum.divisions) + subscript.elim 0 (·.datum.divisions)⟩
      base superscript subscript
  | .paren _ t =>
    let child := t.scaled scale
    .paren ⟨scale, child.datum.divisions⟩ child
termination_by structural t => t

theorem Formula.scaled_scripts (scale : α) (d : δ) (b : Formula δ) (p s : Option (Formula δ)) :
    scaled scale (.scripts d b p s) =
      let base := b.scaled scale
      let superscript := p.map (scaled (scale * Metrics.scriptScale))
      let subscript := s.map (scaled (scale * Metrics.scriptScale))
      .scripts
        ⟨scale, base.datum.divisions + superscript.elim 0 (·.datum.divisions) + subscript.elim 0 (·.datum.divisions)⟩
        base superscript subscript := by
  cases p <;> cases s <;> rfl

end FormulaLayout
