/-
Drawings as JSON documents: an array with one object for each command, indented by two spaces.

Numbers keep at least one decimal; those with a leading power of ten below minus six or above twelve have an exponent,
and values that are not finite become null. Strings escape the quote, the backslash and the controls.
-/
import FormulaLayout.Decimal.Style
import FormulaLayout.Drawing.Command

namespace FormulaLayout

/-- a JSON value with its scalars already in text -/
inductive Json where
  | scalar (text : String)
  | object (fields : List (String × Json))
  | array (items : List Json)

namespace Json

/-- numbers in a JSON document -/
def numberStyle : Decimal.Style where
  tie := .toEven
  lowest := some (-6)
  highest := some 12
  keepsDecimal := true
  signsExponent := true
  notANumber := "null"
  infinity := "null"
  negativeInfinity := "null"

example : numberStyle.text 1e12 = "1000000000000.0" ∧ numberStyle.text 1e13 = "1e+13"
    ∧ numberStyle.text 1e-7 = "1e-7" ∧ numberStyle.text 2097152.25 = "2097152.2"
    ∧ numberStyle.text (0.0 / 0.0) = "null" := by
  decide +kernel

/-- one character inside a JSON string -/
def escapeChar (c : Char) : List Char :=
  if c = '\x22' || c = '\\' then ['\\', c]
  else if c = '\x08' then ['\\', 'b']
  else if c = '\t' then ['\\', 't']
  else if c = '\n' then ['\\', 'n']
  else if c = '\x0c' then ['\\', 'f']
  else if c = '\r' then ['\\', 'r']
  else if c.toNat < 0x20 then
    ['\\', 'u', '0', '0'] ++ (if c.toNat < 0x10 then ['0'] else []) ++ Nat.toDigits 16 c.toNat
  else [c]

/-- a JSON string -/
def quote (s : String) : String :=
  String.ofList ('\x22' :: s.toList.flatMap escapeChar ++ ['\x22'])

/-- a number -/
def number (x : Float32) : Json := .scalar (numberStyle.text x)

/-- a string -/
def string (s : String) : Json := .scalar (quote s)

/-- the items of a bracketed value, one on each line, indented by `depth` levels; nothing between empty brackets -/
def bracketed (opener closer : String) (depth : Nat) (items : List String) : String :=
  if items.isEmpty then opener ++ closer
  else
    let indent (n : Nat) : String := String.ofList (List.replicate (2 * n) ' ')
    opener ++ "\n" ++ ",\n".intercalate (items.map (indent (depth + 1) ++ ·)) ++ "\n" ++ indent depth ++ closer

mutual

/-- a value on lines of its own, its brackets indented by `depth` levels -/
def render (depth : Nat) : Json → String
  | .scalar text => text
  | .object fields => bracketed "\x7b" "\x7d" depth (renderFields (depth + 1) fields)
  | .array items => bracketed "[" "]" depth (renderItems (depth + 1) items)

/-- each field behind its name -/
def renderFields (depth : Nat) : List (String × Json) → List String
  | [] => []
  | (name, value) :: rest => (quote name ++ ": " ++ value.render depth) :: renderFields depth rest

/-- each item -/
def renderItems (depth : Nat) : List Json → List String
  | [] => []
  | value :: rest => value.render depth :: renderItems depth rest

end

end Json

/-- an object with the two coordinates -/
def Point.toJson (p : Point Float32) : Json :=
  .object [("x", .number p.x), ("y", .number p.y)]

/-- an object with the kind of the command and its values -/
def Command.toJson : Command Float32 → Json
  | .text t =>
    .object [("kind", .string "text"), ("position", t.position.toJson), ("font_size", .number t.fontSize),
      ("content", .string t.content), ("stretch", .number t.stretch)]
  | .line l =>
    .object [("kind", .string "line"), ("start", l.start.toJson), ("end", l.finish.toJson),
      ("stroke_width", .number l.strokeWidth)]

/-- the document of a drawing -/
def Drawing.toJson (drawing : Drawing Float32) : String :=
  (Json.array (drawing.toList.map Command.toJson)).render 0

end FormulaLayout
