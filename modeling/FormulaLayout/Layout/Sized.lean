/-
Formulas whose nodes know the size of their box.

Sizes go from the leaves up: the box of a node is a function of its scale and of the boxes of its children, one function
for each kind of node. The divider is the height of the alignment line in the box: the rule of a fraction, and what
neighbours are aligned to elsewhere.
-/
import FormulaLayout.Layout.Scaled
import FormulaLayout.Layout.ScriptPlacement

namespace FormulaLayout

/-- the scale of a node, the fractions in its tree, the size of its box and the alignment line, from the top -/
structure Sized (α : Type) where
  scale : α
  divisions : Nat
  size : Size α
  divider : α
  deriving BEq

variable {α : Type} [Scalar α]

namespace Sized

/-- the box of a glyph -/
def glyph (d : Scaled α) : Sized α where
  scale := d.scale
  divisions := d.divisions
  size := ⟨d.scale * Metrics.glyphWidth, d.scale⟩
  divider := d.scale * Metrics.glyphAlignment

/-- two boxes side by side -/
def beside (d : Scaled α) (left right : Sized α) : Sized α where
  scale := d.scale
  divisions := d.divisions
  size := ⟨left.size.width + right.size.width, Scalar.larger left.size.height right.size.height⟩
  divider := Scalar.larger left.divider right.divider

/-- one box above another, with a rule between them -/
def stacked (d : Scaled α) (numerator denominator : Sized α) : Sized α :=
  let gap := Metrics.fractionGap d.scale
  { scale := d.scale
    divisions := d.divisions
    size :=
      ⟨Scalar.larger numerator.size.width denominator.size.width,
        numerator.size.height + denominator.size.height + gap⟩
    divider := numerator.size.height + gap / 2.0 }

/-- how a base and its scripts are arranged -/
def placement (base : Sized α) (superscript subscript : Option (Sized α)) : ScriptPlacement α :=
  .ofSizes base.size (superscript.map Sized.size) (subscript.map Sized.size)

/-- a box with scripts to its right -/
def scripted (d : Scaled α) (base : Sized α) (superscript subscript : Option (Sized α)) : Sized α :=
  let arrangement := placement base superscript subscript
  let scriptWidth :=
    Scalar.larger (superscript.elim 0.0 (·.size.width)) (subscript.elim 0.0 (·.size.width))
  { scale := d.scale
    divisions := d.divisions
    size := ⟨base.size.width + scriptWidth, arrangement.height⟩
    divider := base.divider + arrangement.baseTop }

/-- a box between two parentheses -/
def enclosed (d : Scaled α) (child : Sized α) : Sized α where
  scale := d.scale
  divisions := d.divisions
  size := ⟨child.size.width + 2.0 * Metrics.parenPadding d.scale, child.size.height⟩
  divider := child.divider

end Sized

/-- the formula with the box of every node -/
def Formula.sized : Formula (Scaled α) → Formula (Sized α)
  | .char d c => .char (.glyph d) c
  | .concat d l r =>
    let left := l.sized
    let right := r.sized
    .concat (.beside d left.datum right.datum) left right
  | .fraction d n m =>
    let numerator := n.sized
    let denominator := m.sized
    .fraction (.stacked d numerator.datum denominator.datum) numerator denominator
  | .scripts d b p s =>
    let base := b.sized
    let superscript := match p with | none => none | some p => some p.sized
    let subscript := match s with | none => none | some s => some s.sized
    .scripts (.scripted d base.datum (superscript.map datum) (subscript.map datum)) base superscript subscript
  | .paren d t =>
    let child := t.sized
    .paren (.enclosed d child.datum) child
termination_by structural t => t

theorem Formula.sized_scripts (d : Scaled α) (b : Formula (Scaled α)) (p s : Option (Formula (Scaled α))) :
    sized (.scripts d b p s) =
      .scripts (.scripted d b.sized.datum (p.map (·.sized.datum)) (s.map (·.sized.datum))) b.sized (p.map sized)
        (s.map sized) := by
  cases p <;> cases s <;> rfl

end FormulaLayout
