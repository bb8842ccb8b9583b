/-
Layout with its checks.

An engine has the scale and the corner of the root. It refuses parameters that are not finite or a scale that is not
positive, then trees that are too deep, then a root box that is empty or not finite, and last a far corner that is not
finite. Only the root is checked.
-/
import FormulaLayout.Formula.Measures
import FormulaLayout.Layout.Placed

namespace FormulaLayout

/-- why a formula was not laid out -/
inductive LayoutError (α : Type) where
  | invalidScale (scale : α)
  | invalidOrigin (origin : Point α)
  | tooDeep (depth limit : Nat)
  | degenerateBox (box : Sized α)
  | unboundedBox (bounds : Rect α)

/-- the scale of the root and its top-left corner -/
structure Engine (α : Type) where
  scale : α
  origin : Point α

namespace Engine

variable {α : Type} [Scalar α]

/-- scale one, at the origin -/
def standard : Engine α :=
  ⟨1.0, .zero⟩

/-- refuses parameters of which no layout can come -/
def validate (e : Engine α) : Except (LayoutError α) Unit :=
  if !Scalar.isFinite e.scale || e.scale ≤ 0.0 then .error (.invalidScale e.scale)
  else if !e.origin.isFinite then .error (.invalidOrigin e.origin)
  else .ok ()

/-- refuses a root box that is empty or not finite -/
def checkBox (box : Sized α) : Except (LayoutError α) Unit :=
  let finite := Scalar.isFinite box.size.width && Scalar.isFinite box.size.height && Scalar.isFinite box.divider
  if !finite || box.size.width ≤ 0.0 || box.size.height ≤ 0.0 then .error (.degenerateBox box) else .ok ()

/-- refuses a box whose far corner is not finite -/
def checkBounds (bounds : Rect α) : Except (LayoutError α) Unit :=
  if !Scalar.isFinite bounds.right || !Scalar.isFinite bounds.bottom then .error (.unboundedBox bounds) else .ok ()

/-- the formula with the place of every node -/
def layout (e : Engine α) (expr : Expr) : Except (LayoutError α) (Formula (Placed α)) := do
  e.validate
  let depth := expr.depth
  if Formula.maxDepth < depth then
    throw (.tooDeep depth Formula.maxDepth)
  let sized := (expr.scaled e.scale).sized
  checkBox sized.datum
  let placed := sized.placed e.origin
  checkBounds placed.datum.bounds
  return placed

end Engine

end FormulaLayout
