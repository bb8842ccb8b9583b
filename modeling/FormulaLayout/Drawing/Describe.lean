/-
Drawing commands in messages.

Numbers keep at least one decimal, and those below a ten-thousandth or from ten to the sixteenth on have an exponent.
-/
import FormulaLayout.Decimal.Style
import FormulaLayout.Drawing.Command
import FormulaLayout.Text.Quoted

namespace FormulaLayout

/-- numbers in the description of a command -/
def describedNumber : Decimal.Style :=
  { Decimal.Style.plain with lowest := some (-4), highest := some 15, keepsDecimal := true }

example : describedNumber.text 1.0 = "1.0" ∧ describedNumber.text 1e16 = "1e16"
    ∧ describedNumber.text 1.2e-5 = "1.2e-5" ∧ describedNumber.text 1e-4 = "0.0001" := by
  decide +kernel

/-- a named record with its fields in order -/
def describeRecord (name : String) (fields : List (String × String)) : String :=
  name ++ " \x7b " ++ ", ".intercalate (fields.map fun (field, value) => field ++ ": " ++ value) ++ " \x7d"

/-- the description of a point -/
def Point.describe (p : Point Float32) : String :=
  describeRecord "Point" [("x", describedNumber.text p.x), ("y", describedNumber.text p.y)]

/-- the description of a command with all its values -/
def Command.describe : Command Float32 → String
  | .text t =>
    "Text(" ++ describeRecord "DrawTextCommand"
      [("position", t.position.describe), ("font_size", describedNumber.text t.fontSize),
        ("content", Text.quote t.content), ("stretch", describedNumber.text t.stretch)] ++ ")"
  | .line l =>
    "Line(" ++ describeRecord "DrawLineCommand"
      [("start", l.start.describe), ("end", l.finish.describe),
        ("stroke_width", describedNumber.text l.strokeWidth)] ++ ")"

end FormulaLayout
