/-
The proportions of a layout.

All are ratios of a node's own scale, except that scripts are placed by the height of their base. A glyph is as tall as
its scale. The superscript ends above the middle of its base and the subscript starts below it, since the drop is less
than a half and the rise is more.
-/
import FormulaLayout.Geometry

namespace FormulaLayout.Metrics

variable {α : Type} [Scalar α]

/-- the width of a glyph -/
def glyphWidth : α := 0.6

/-- the alignment line of a single glyph, from its top -/
def glyphAlignment : α := 0.72

/-- the scale of a script, by the scale of its base -/
def scriptScale : α := 0.7

/-- where a superscript ends, below the top of its base and by its height -/
def superscriptDrop : α := 0.4

/-- where a subscript starts, below the top of its base and by its height -/
def subscriptRise : α := 0.7

/-- the space between numerator and denominator; the rule lies in its middle -/
def fractionGap (scale : α) : α := scale * 0.3

/-- the stroke width of a fraction's rule -/
def ruleThickness (scale : α) : α := scale * 0.06

/-- the width kept free for one parenthesis -/
def parenPadding (scale : α) : α := scale * 0.6

/-- how tall the parentheses around so many fractions are, by the height of a glyph -/
def stretchFactor (divisions : Nat) : α :=
  if divisions = 0 then 1.0 else (divisions : α) * 2.2

end FormulaLayout.Metrics
