/-
Writing an SVG document while its drawing is being made.

A document begins with the declaration, the root element, a group with the document's transform and font, and the grid;
it ends with the end tags of both and a flush. In between stands one element for each command. Every piece is written as
one line, and a failed write leaves the writer where it was, with whatever the device accepted of the line.

`Writer.elements` counts the commands whose element was written; lines of the grid are not counted.
-/
import FormulaLayout.Device
import FormulaLayout.Drawing.Painter
import FormulaLayout.Svg.Element
import FormulaLayout.Svg.Options

namespace FormulaLayout.Svg

open Text (Piece)

variable {σ ε : Type}

/-- what has been written, and how many commands it draws -/
structure Writer (σ : Type) where
  out : σ
  elements : Nat

/-- the pieces in front of the grid -/
def opening (options : Options) : List Piece :=
  let transform :=
    "scale(" ++ Decimal.text options.scale ++ ") translate(" ++ Decimal.text options.offset.x ++ ","
      ++ Decimal.text options.offset.y ++ ")"
  [.declaration,
    .start "svg" [("xmlns", "http://www.w3.org/2000/svg"), ("version", "1.1")],
    .start "g" [("transform", transform), ("font-family", options.fontFamily)]]

/-- a horizontal line across the grid -/
def horizontal (extent y : Nat) (strokeWidth : String) : Piece :=
  Element.linePiece (toString (-(extent : Int))) (toString y) (toString extent) (toString y) strokeWidth

/-- a vertical line across the grid -/
def vertical (extent x : Nat) (strokeWidth : String) : Piece :=
  Element.linePiece (toString x) (toString (-(extent : Int))) (toString x) (toString extent) strokeWidth

/-- the two axes -/
def axes (extent : Nat) : List Piece :=
  [horizontal extent 0 "0.02", vertical extent 0 "0.02"]

/-- the two lines at a distance from the axes -/
def unitLines (extent i : Nat) : List Piece :=
  [vertical extent i "0.01", horizontal extent i "0.01"]

/-- the pieces behind the last element -/
def closing : List Piece :=
  [.finish "g", .finish "svg"]

namespace Writer

/-- one piece on a line of its own -/
def write (device : Device σ ε) (w : Writer σ) (piece : Piece) : Outcome (Writer σ) ε :=
  (device.write w.out piece.line).mapState fun out => { w with out }

/-- the lines of the grid at its last `remaining` units -/
def writeUnits (device : Device σ ε) (extent : Nat) : (remaining : Nat) → Writer σ → Outcome (Writer σ) ε
  | 0, w => .done w
  | remaining + 1, w =>
    match Outcome.forEach (write device) w (unitLines extent (extent - remaining)) with
    | ⟨w, none⟩ => writeUnits device extent remaining w
    | failure => failure

/-- the grid, if there is one -/
def writeGrid (device : Device σ ε) (grid : Option Nat) (w : Writer σ) : Outcome (Writer σ) ε :=
  match grid with
  | none => .done w
  | some extent => (Outcome.forEach (write device) w (axes extent)).andThen (writeUnits device extent extent)

/-- everything in front of the first element -/
def begin (device : Device σ ε) (options : Options) (w : Writer σ) : Outcome (Writer σ) ε :=
  (Outcome.forEach (write device) w (opening options)).andThen (writeGrid device options.grid)

/-- the element of one command -/
def emit (device : Device σ ε) : Sink (Writer σ) ε Float32 := fun w command =>
  (write device w (Element.ofCommand command).piece).andThen fun w => .done { w with elements := w.elements + 1 }

/-- everything behind the last element, and a flush -/
def finish (device : Device σ ε) (w : Writer σ) : Outcome (Writer σ) ε :=
  (Outcome.forEach (write device) w closing).andThen fun w =>
    (device.flush w.out).mapState fun out => { w with out }

end Writer

/-- the document of a drawing, written to a device -/
def writeDocument (device : Device σ ε) (options : Options) (drawing : Drawing Float32) (out : σ) : Outcome σ ε :=
  ((Writer.begin device options ⟨out, 0⟩).andThen fun w =>
    (drawing.replay (Writer.emit device) w).andThen (Writer.finish device)).mapState Writer.out

/-- the document of a drawing -/
def document (options : Options) (drawing : Drawing Float32) : String :=
  (writeDocument (Device.memory (ε := Empty)) options drawing "").state

end FormulaLayout.Svg
