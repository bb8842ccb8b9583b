/-
Drawing commands: text and straight lines, with absolute coordinates.

A text command has the top-left corner of its box, the font size, the content and a vertical stretch, which is one for
ordinary text. A drawing is a sequence of commands in the order of drawing.
-/
import FormulaLayout.Geometry

namespace FormulaLayout

/-- text in a box -/
structure TextCommand (α : Type) where
  position : Point α
  fontSize : α
  content : String
  stretch : α
  deriving BEq

/-- a straight line -/
structure LineCommand (α : Type) where
  start : Point α
  finish : Point α
  strokeWidth : α
  deriving BEq

/-- one step of a drawing -/
inductive Command (α : Type) where
  | text (t : TextCommand α)
  | line (l : LineCommand α)
  deriving BEq

/-- commands in the order of drawing -/
abbrev Drawing (α : Type) := Array (Command α)

/-- the distance between the ends of a line -/
def LineCommand.length (l : LineCommand Float32) : Float32 :=
  let dx := l.finish.x - l.start.x
  let dy := l.finish.y - l.start.y
  (dx * dx + dy * dy).sqrt

namespace Command

variable {α : Type}

/-- every coordinate and size of the command is finite -/
def isFinite [Scalar α] : Command α → Bool
  | text t => t.position.isFinite && Scalar.isFinite t.fontSize && Scalar.isFinite t.stretch
  | line l => l.start.isFinite && l.finish.isFinite && Scalar.isFinite l.strokeWidth

/-- the text that the command draws, if it draws text -/
def text? : Command α → Option (TextCommand α)
  | text t => some t
  | line _ => none

/-- the line that the command draws, if it draws one -/
def line? : Command α → Option (LineCommand α)
  | text _ => none
  | line l => some l

end Command

namespace Drawing

variable {α : Type}

/-- the text commands of a drawing -/
def texts (d : Drawing α) : List (TextCommand α) :=
  d.toList.filterMap Command.text?

/-- the line commands of a drawing -/
def lines (d : Drawing α) : List (LineCommand α) :=
  d.toList.filterMap Command.line?

end Drawing

end FormulaLayout
