/-
Formulas whose nodes know where their box is.

Positions go from the root down. Neighbours are shifted down until their alignment lines meet that of their parent; the
two parts of a fraction are centred; scripts stand behind the base at the heights of their arrangement; the inside of
parentheses leaves room for the left one.
-/
import FormulaLayout.Layout.Sized

namespace FormulaLayout

/-- the box of a node and its top-left corner -/
structure Placed (α : Type) where
  box : Sized α
  origin : Point α
  deriving BEq

variable {α δ : Type} [Scalar α]

namespace Placed

/-- the box in the plane -/
def bounds (p : Placed α) : Rect α :=
  .ofOriginSize p.origin p.box.size

/-- the height of the alignment line in the plane -/
def dividerY (p : Placed α) : α :=
  p.origin.y + p.box.divider

end Placed

/-- the formula with its top-left corner at the given point -/
def Formula.placed (origin : Point α) : Formula (Sized α) → Formula (Placed α)
  | .char d c => .char ⟨d, origin⟩ c
  | .concat d l r =>
    let leftY := origin.y + d.divider - l.datum.divider
    let rightY := origin.y + d.divider - r.datum.divider
    .concat ⟨d, origin⟩ (l.placed ⟨origin.x, leftY⟩) (r.placed ⟨origin.x + l.datum.size.width, rightY⟩)
  | .fraction d n m =>
    let gap := Metrics.fractionGap d.scale
    let numeratorX := origin.x + (d.size.width - n.datum.size.width) / 2.0
    let denominatorX := origin.x + (d.size.width - m.datum.size.width) / 2.0
    .fraction ⟨d, origin⟩ (n.placed ⟨numeratorX, origin.y⟩)
      (m.placed ⟨denominatorX, origin.y + d.divider + gap / 2.0⟩)
  | .scripts d b p s =>
    let arrangement := Sized.placement b.datum (p.map datum) (s.map datum)
    let baseY := origin.y + arrangement.baseTop
    let scriptX := origin.x + b.datum.size.width
    .scripts ⟨d, origin⟩ (b.placed ⟨origin.x, baseY⟩)
      (match p with | none => none | some p => some (p.placed ⟨scriptX, baseY - arrangement.superOffset⟩))
      (match s with | none => none | some s => some (s.placed ⟨scriptX, baseY + arrangement.subOffset⟩))
  | .paren d t => .paren ⟨d, origin⟩ (t.placed ⟨origin.x + Metrics.parenPadding d.scale, origin.y⟩)
termination_by structural t => t

theorem Formula.placed_scripts (origin : Point α) (d : Sized α) (b : Formula (Sized α))
    (p s : Option (Formula (Sized α))) :
    placed origin (.scripts d b p s) =
      let arrangement := Sized.placement b.datum (p.map datum) (s.map datum)
      let baseY := origin.y + arrangement.baseTop
      let scriptX := origin.x + b.datum.size.width
      .scripts ⟨d, origin⟩ (b.placed ⟨origin.x, baseY⟩)
        (p.map (placed ⟨scriptX, baseY - arrangement.superOffset⟩))
        (s.map (placed ⟨scriptX, baseY + arrangement.subOffset⟩)) := by
  cases p <;> cases s <;> rfl

/-- all three passes, without any check -/
def Formula.laidOut (scale : α) (origin : Point α) (t : Formula δ) : Formula (Placed α) :=
  (t.scaled scale).sized.placed origin

end FormulaLayout
