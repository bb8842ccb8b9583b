/-
The vertical arrangement of a base and its scripts.

A superscript that reaches above the base pushes the base down, so that the arrangement starts at zero; a shorter one
starts below the top of the base and leaves it in place. The subscript hangs from the base, and the arrangement ends
where the lower of the two ends.
-/
import FormulaLayout.Layout.Metrics

namespace FormulaLayout

/-- heights within the box around a base and its scripts, from the top of the box -/
structure ScriptPlacement (α : Type) where
  /-- the top of the base -/
  baseTop : α
  /-- how far the superscript starts above the top of the base -/
  superOffset : α
  /-- how far the subscript starts below the top of the base -/
  subOffset : α
  /-- the height of the arrangement -/
  height : α

namespace ScriptPlacement

variable {α : Type} [Scalar α]

/-- the arrangement of a base and the scripts that are present -/
def ofSizes (base : Size α) (superscript subscript : Option (Size α)) : ScriptPlacement α :=
  let superOffset : α := superscript.elim 0.0 fun s => s.height - base.height * Metrics.superscriptDrop
  let baseTop : α := if superscript.isSome then Scalar.larger superOffset 0.0 else 0.0
  let subOffset := base.height * Metrics.subscriptRise
  let baseBottom := baseTop + base.height
  { baseTop, superOffset, subOffset
    height := subscript.elim baseBottom fun s => Scalar.larger baseBottom (baseTop + subOffset + s.height) }

/-- the top of the superscript -/
def superscriptTop (p : ScriptPlacement α) : α :=
  p.baseTop - p.superOffset

/-- the top of the subscript -/
def subscriptTop (p : ScriptPlacement α) : α :=
  p.baseTop + p.subOffset

end ScriptPlacement

end FormulaLayout
