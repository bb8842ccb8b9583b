/-
A laid out formula as text: one line for each node in reading order, indented by two spaces for each level.

A line has the kind of the node, its notation in quotes, its scale, corner, size and alignment line. Quoted notation has
no line break, whatever the glyphs are, so the lines and their indentation give the tree back.
-/
import FormulaLayout.Decimal.Style
import FormulaLayout.Formula.Outline
import FormulaLayout.Formula.Source
import FormulaLayout.Layout.Placed
import FormulaLayout.Text.Quoted

namespace FormulaLayout.Formula

/-- the scale, corner, size and alignment line of a node -/
def measurements (t : Formula (Placed Float32)) : String :=
  let b := t.datum.bounds
  "scale=" ++ Decimal.text t.datum.box.scale ++ " at=(" ++ Decimal.text b.x ++ ", " ++ Decimal.text b.y ++ ") size="
    ++ Decimal.text b.width ++ "x" ++ Decimal.text b.height ++ " divider=" ++ Decimal.text t.datum.box.divider

/-- the line of one node, without its end -/
def listingLine (level : Nat) (t : Formula (Placed Float32)) : String :=
  String.ofList (List.replicate (2 * level) ' ') ++ t.kindName ++ " " ++ Text.quote t.value ++ " " ++ t.measurements

/-- the lines of all nodes of a tree whose root is at the given level, in reading order -/
def listingLines (level : Nat) (t : Formula (Placed Float32)) : List String :=
  (t.outlineFrom level).map fun (level, node) => node.listingLine level

/-- a text and behind it the lines of all nodes of a tree whose root is at the given level -/
def listInto (out : String) (level : Nat) (t : Formula (Placed Float32)) : String :=
  let out := out ++ t.listingLine level ++ "\n"
  match t with
  | .char _ _ => out
  | .concat _ l r => r.listInto (l.listInto out (level + 1)) (level + 1)
  | .fraction _ n m => m.listInto (n.listInto out (level + 1)) (level + 1)
  | .scripts _ b p s =>
    let out := b.listInto out (level + 1)
    let out := match p with | none => out | some p => p.listInto out (level + 1)
    match s with | none => out | some s => s.listInto out (level + 1)
  | .paren _ t => t.listInto out (level + 1)
termination_by structural t

/-- the lines of all nodes -/
def listing (t : Formula (Placed Float32)) : String :=
  t.listInto "" 0

end FormulaLayout.Formula
