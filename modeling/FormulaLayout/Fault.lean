/-
Everything that can go wrong, with its wording.

Reading, laying out and drawing have error types of their own; a `Fault` is what the whole program reports. A fault of
the notation has a position in the text, the others have none.
-/
import FormulaLayout.Drawing.Describe
import FormulaLayout.Drawing.Painter
import FormulaLayout.Layout.Engine
import FormulaLayout.Notation.SyntaxError

namespace FormulaLayout

/-- an error of the program -/
inductive Fault where
  | parse (position : Nat) (message : String)
  | invalidScale (scale : Float32)
  | invalidOrigin (origin : Point Float32)
  | degenerateGeometry (message : String)
  | tooDeep (depth limit : Nat)
  | io (message : String)
  | serialize (message : String)
  | internal (message : String)

namespace Fault

/-- the offset in the text that the fault is about -/
def position? : Fault → Option Nat
  | parse position _ => some position
  | _ => none

/-- the wording of a fault -/
def message : Fault → String
  | parse position message => "Parse error at offset " ++ toString position ++ ": " ++ message
  | invalidScale scale => "Invalid scale: " ++ Decimal.text scale ++ " (must be finite and positive)"
  | invalidOrigin origin =>
    "Invalid origin: (" ++ Decimal.text origin.x ++ ", " ++ Decimal.text origin.y ++ ") (must be finite)"
  | degenerateGeometry message => "Degenerate geometry: " ++ message
  | tooDeep depth limit => "Expression nests " ++ toString depth ++ " levels deep (limit " ++ toString limit ++ ")"
  | io message => "IO error: " ++ message
  | serialize message => "Serialization error: " ++ message
  | internal message => "Internal error: " ++ message

end Fault

/-- an error in the notation, as a fault; a run without terms would be an error of the parser and not of the text -/
def Notation.SyntaxError.toFault (e : Notation.SyntaxError) : Fault :=
  match e.cause with
  | .emptyRun => .internal e.message
  | _ => .parse e.position e.message

/-- a refusal of the layout, as a fault -/
def LayoutError.toFault : LayoutError Float32 → Fault
  | invalidScale scale => .invalidScale scale
  | invalidOrigin origin => .invalidOrigin origin
  | tooDeep depth limit => .tooDeep depth limit
  | degenerateBox box =>
    .degenerateGeometry
      ("root box " ++ Decimal.text box.size.width ++ "x" ++ Decimal.text box.size.height ++ " with divider "
        ++ Decimal.text box.divider ++ " at scale " ++ Decimal.text box.scale)
  | unboundedBox bounds =>
    .degenerateGeometry
      ("box from (" ++ Decimal.text bounds.x ++ ", " ++ Decimal.text bounds.y ++ ") to ("
        ++ Decimal.text bounds.right ++ ", " ++ Decimal.text bounds.bottom ++ ")")

/-- a command that is not finite, as a fault -/
def Command.toFault (command : Command Float32) : Fault :=
  .degenerateGeometry command.describe

/-- an interrupted painting, as a fault; a sink refuses with the message of its output -/
def PaintError.toFault : PaintError String Float32 → Fault
  | notFinite command => command.toFault
  | refused message => .io message

end FormulaLayout
