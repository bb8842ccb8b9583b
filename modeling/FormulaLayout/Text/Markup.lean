/-
Markup documents, one piece on each line.

A piece is the declaration, a start tag, an end tag, an empty element, or an element with text inside. The characters
that would end a text are written as entities: content between tags replaces the ampersand and the angle brackets, an
attribute value in double quotes replaces both quotes as well. An ampersand is always replaced, so the entities can be
read back from left to right.
-/
namespace FormulaLayout.Text

/-- one character of content between tags -/
def contentEntity (c : Char) : List Char :=
  if c = '&' then "&amp;".toList
  else if c = '<' then "&lt;".toList
  else if c = '>' then "&gt;".toList
  else [c]

/-- one character of an attribute value -/
def attributeEntity (c : Char) : List Char :=
  if c = '\x22' then "&quot;".toList
  else if c = '\x27' then "&#39;".toList
  else contentEntity c

/-- content between tags -/
def escapeContent (s : String) : String :=
  String.ofList (s.toList.flatMap contentEntity)

/-- an attribute value -/
def escapeAttribute (s : String) : String :=
  String.ofList (s.toList.flatMap attributeEntity)

/-- attributes in order, with their values before escaping -/
abbrev Attributes := List (String × String)

/-- a piece of a markup document -/
inductive Piece where
  | declaration
  | start (name : String) (attributes : Attributes)
  | finish (name : String)
  | empty (name : String) (attributes : Attributes)
  | element (name : String) (attributes : Attributes) (content : String)
  deriving DecidableEq, Repr

/-- attributes as they follow a tag's name -/
def Attributes.render (attributes : Attributes) : String :=
  String.join (attributes.map fun (name, value) => " " ++ name ++ "=\"" ++ escapeAttribute value ++ "\"")

/-- a piece without the end of its line -/
def Piece.render : Piece → String
  | declaration => "<?xml version=\"1.0\"?>"
  | start name attributes => "<" ++ name ++ attributes.render ++ ">"
  | finish name => "</" ++ name ++ ">"
  | empty name attributes => "<" ++ name ++ attributes.render ++ "/>"
  | element name attributes content =>
    "<" ++ name ++ attributes.render ++ ">" ++ escapeContent content ++ "</" ++ name ++ ">"

/-- a piece and the end of its line -/
def Piece.line (piece : Piece) : String :=
  piece.render ++ "\n"

end FormulaLayout.Text
