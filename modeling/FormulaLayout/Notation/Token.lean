/-
The tokens of the notation.

Seven characters are operators and delimiters; every other character, blanks included, is a token that stands for
itself. Tabs and line breaks are skipped, but they count in offsets: a token's offset is the index of its character.
-/
import FormulaLayout.Text.Quoted

namespace FormulaLayout.Notation

/-- the two places of a script -/
inductive Side where
  | above
  | below
  deriving DecidableEq, Repr

/-- the two pairs of delimiters: parentheses are drawn, braces only group -/
inductive Delimiter where
  | paren
  | brace
  deriving DecidableEq, Repr

/-- what a token is -/
inductive TokenKind where
  | char (c : Char)
  | marker (side : Side)
  | slash
  | opener (delimiter : Delimiter)
  | closer (delimiter : Delimiter)
  deriving DecidableEq, Repr

/-- a token and the index of its character -/
structure Token where
  kind : TokenKind
  offset : Nat
  deriving DecidableEq, Repr

/-- a character that is no token and separates nothing -/
def isSkipped (c : Char) : Bool :=
  c == '\t' || c == '\n' || c == '\r'

namespace TokenKind

/-- the kind of the token that a character is -/
def ofChar (c : Char) : TokenKind :=
  if c = '^' then marker .above
  else if c = '_' then marker .below
  else if c = '/' then slash
  else if c = '(' then opener .paren
  else if c = ')' then closer .paren
  else if c = '\x7b' then opener .brace
  else if c = '\x7d' then closer .brace
  else char c

/-- how a message names the token -/
def describe : TokenKind → String
  | char c => "character " ++ Text.quoteChar c
  | marker .above => "'^'"
  | marker .below => "'_'"
  | slash => "'/'"
  | opener .paren => "'('"
  | closer .paren => "')'"
  | opener .brace => "'\x7b'"
  | closer .brace => "'\x7d'"

end TokenKind

/-- the tokens of a text whose first character has the given index -/
def scan (offset : Nat) : List Char → List Token
  | [] => []
  | c :: rest =>
    if isSkipped c then scan (offset + 1) rest
    else ⟨.ofChar c, offset⟩ :: scan (offset + 1) rest

/-- the tokens of a text -/
def tokenize (input : String) : List Token :=
  scan 0 input.toList

end FormulaLayout.Notation
