/-
From notation to a written document.

A run parses its input, lays the formula out, draws it and writes the drawing as a document in the configured format.
Nothing is written before the drawing is complete, so a fault of the first three stages leaves the output untouched. A
pipeline counts the runs that went through all stages.
-/
import FormulaLayout.Config
import FormulaLayout.Drawing.Json
import FormulaLayout.Fault
import FormulaLayout.Notation.Parser
import FormulaLayout.Svg.Writer

namespace FormulaLayout

/-- the drawing of an expression at a scale and a place -/
def drawExpr (engine : Engine Float32) (expr : Expr) : Except Fault (Drawing Float32) := do
  let tree ← (engine.layout expr).mapError LayoutError.toFault
  tree.draw.mapError Command.toFault

/-- the drawing of a text with a configuration -/
def typeset (input : String) (config : Config) : Except Fault (Drawing Float32) := do
  let expr ← (Notation.parse input).mapError Notation.SyntaxError.toFault
  drawExpr config.engine expr

/-- the parts of a run, in order -/
inductive Stage where
  | parse
  | layout
  | paint
  | write
  deriving DecidableEq, Repr

/-- the name of a stage in the log -/
def Stage.name : Stage → String
  | parse => "Parse"
  | layout => "Layout"
  | paint => "Paint"
  | write => "Write"

/-- all stages in order -/
def Stage.all : List Stage :=
  [.parse, .layout, .paint, .write]

/-- what a complete run made -/
structure Rendering where
  tree : Formula (Placed Float32)
  drawing : Drawing Float32

/-- a configuration and the number of complete runs with it -/
structure Pipeline where
  config : Config
  runs : Nat

namespace Pipeline

variable {σ : Type}

/-- the drawing in the configured format; a JSON document ends its line -/
def writeDrawing (device : Device σ String) (config : Config) (drawing : Drawing Float32) (out : σ) :
    Outcome σ String :=
  match config.format with
  | .svg => Svg.writeDocument device config.svgOptions drawing out
  | .json => (device.write out (drawing.toJson ++ "\n")).andThen device.flush

/-- the stages in front of the output -/
def render (config : Config) (input : String) : Except Fault Rendering := do
  let expr ← (Notation.parse input).mapError Notation.SyntaxError.toFault
  let tree ← (config.engine.layout expr).mapError LayoutError.toFault
  let drawing ← tree.draw.mapError Command.toFault
  return ⟨tree, drawing⟩

/-- one run: the result, the pipeline and the output behind it -/
def run (p : Pipeline) (device : Device σ String) (input : String) (out : σ) :
    Except Fault Rendering × Pipeline × σ :=
  match render p.config input with
  | .error fault => (.error fault, p, out)
  | .ok rendering =>
    match writeDrawing device p.config rendering.drawing out with
    | ⟨out, none⟩ => (.ok rendering, { p with runs := p.runs + 1 }, out)
    | ⟨out, some message⟩ => (.error (.io message), p, out)

end Pipeline

end FormulaLayout
