/-
Drawing commands as SVG elements.

Text is placed by its baseline, which is one stretched font size below the top of its box. Unstretched text stands at
its coordinates; stretched text stands at the origin of a system that is stretched and then moved to the baseline. A
line keeps its ends.
-/
import FormulaLayout.Decimal.Style
import FormulaLayout.Drawing.Command
import FormulaLayout.Text.Markup

namespace FormulaLayout.Svg

open Text (Piece)

/-- an element with its numbers -/
inductive Element (α : Type) where
  | plainText (x baseline fontSize : α) (content : String)
  | mappedText (fontSize : α) (matrix : Transform α) (content : String)
  | line (start finish : Point α) (strokeWidth : α)

namespace Element

variable {α : Type} [Scalar α]

/-- the element that draws a command -/
def ofCommand : Command α → Element α
  | .text t =>
    let baseline := t.position.y + t.fontSize * t.stretch
    if Scalar.isNegligible (t.stretch - 1.0) then
      .plainText t.position.x baseline t.fontSize t.content
    else
      .mappedText t.fontSize ((Transform.scaling 1.0 t.stretch).andThen (.translation t.position.x baseline)) t.content
  | .line l => .line l.start l.finish l.strokeWidth

/-- a line between two points given in text, as wide as stated -/
def linePiece (x1 y1 x2 y2 strokeWidth : String) : Piece :=
  .empty "line" [("x1", x1), ("y1", y1), ("x2", x2), ("y2", y2), ("stroke-width", strokeWidth), ("stroke", "black")]

/-- the element in markup -/
def piece : Element Float32 → Piece
  | plainText x baseline fontSize content =>
    .element "text" [("x", Decimal.text x), ("y", Decimal.text baseline), ("font-size", Decimal.text fontSize)] content
  | mappedText fontSize m content =>
    let entries := ",".intercalate ([m.a, m.b, m.c, m.d, m.e, m.f].map Decimal.text)
    .element "text"
      [("x", "0"), ("y", "0"), ("font-size", Decimal.text fontSize), ("transform", "matrix(" ++ entries ++ ")")] content
  | line start finish strokeWidth =>
    linePiece (Decimal.text start.x) (Decimal.text start.y) (Decimal.text finish.x) (Decimal.text finish.y)
      (Decimal.text strokeWidth)

end Element

end FormulaLayout.Svg
