/-
Why a text is not a formula.

An error has the offset where it was noticed and a cause; the wording is in `SyntaxError.message`. Two causes are limits
and not faults of the grammar: delimiters nested too deep, and a tree with too many levels. One, a run without terms,
is no fault of the text at all: it is what joining a run answers for an empty one.
-/
import FormulaLayout.Notation.Token

namespace FormulaLayout.Notation

namespace SyntaxError

/-- what is wrong -/
inductive Cause where
  | noTokens
  | unexpectedEnd
  | unexpected (kind : TokenKind)
  | emptyGroup
  | duplicateScript (side : Side)
  | strayCloser
  | wrongCloser (opened : Delimiter) (openedAt : Nat) (found : Delimiter)
  | unclosed (opened : Delimiter) (openedAt : Nat)
  | nestedTooDeep (limit : Nat)
  | tooManyLevels (limit : Nat)
  | emptyRun
  deriving DecidableEq, Repr

/-- the cause is a limit and no fault of the grammar -/
def Cause.isLimit : Cause → Bool
  | nestedTooDeep _ | tooManyLevels _ => true
  | _ => false

end SyntaxError

/-- an error and the offset where it was noticed -/
structure SyntaxError where
  position : Nat
  cause : SyntaxError.Cause
  deriving DecidableEq, Repr

namespace SyntaxError

/-- the wording of a cause -/
def Cause.message : Cause → String
  | noTokens => "empty expression"
  | unexpectedEnd => "unexpected end of input, expected a term"
  | unexpected kind => "unexpected " ++ kind.describe
  | emptyGroup => "empty group"
  | duplicateScript side =>
    "duplicate " ++ (match side with | .above => "superscript" | .below => "subscript")
      ++ "; group with braces to nest scripts"
  | strayCloser => "unbalanced closing delimiter"
  | wrongCloser opened openedAt found =>
    "expected " ++ (TokenKind.closer opened).describe ++ " to close " ++ (TokenKind.opener opened).describe
      ++ " at offset " ++ toString openedAt ++ ", found " ++ (TokenKind.closer found).describe
  | unclosed opened openedAt =>
    "unbalanced " ++ (TokenKind.opener opened).describe ++ " at offset " ++ toString openedAt
  | nestedTooDeep limit => "delimiters nested more than " ++ toString limit ++ " deep"
  | tooManyLevels limit => "expression nests deeper than " ++ toString limit ++ " levels"
  | emptyRun => "juxtaposition with no terms"

/-- the wording of an error -/
def message (e : SyntaxError) : String :=
  e.cause.message

end SyntaxError

end FormulaLayout.Notation
