/-
The parser of the notation.

  expression := expression '/' run | run
  run        := run term | term
  term       := factor with at most one '^' factor and at most one '_' factor, in either order
  factor     := '(' expression ')' | '{' expression '}' | character

Division is left-associative, and a run of terms is joined as a balanced tree. The parser takes one token at a time
(`step`): it never looks ahead and never goes back. Whatever a token makes impossible is reported at that token; what is
missing at the end of the text is reported behind its last character. At most `limit` delimiters may be open at once,
and no part may have more than `limit` levels.
-/
import FormulaLayout.Formula.Measures
import FormulaLayout.Notation.Reading

namespace FormulaLayout.Notation

/-- the state behind one more token -/
def step (limit : Nat) (s : State) (token : Token) : Except SyntaxError State :=
  match token.kind with
  | .char c => do
    let slot ← s.focus.slot limit token.offset
    return { s with focus := slot.fill (.ofChar c) }
  | .opener delimiter => do
    let slot ← s.focus.slot limit token.offset
    if limit ≤ s.frames.length then
      throw ⟨token.offset, .nestedTooDeep limit⟩
    return ⟨⟨delimiter, token.offset, s.division, slot⟩ :: s.frames, none, .opening⟩
  | .marker side =>
    match s.focus with
    | .factor run term =>
      if (term.script? side).isSome then
        .error ⟨token.offset, .duplicateScript side⟩
      else
        .ok { s with focus := .marker run { term with marker := token.offset } side }
    | _ => .error ⟨token.offset, .unexpected token.kind⟩
  | .slash =>
    match s.focus with
    | .factor run term => do
      let numerator ← closeLevel limit s.division run term
      return ⟨s.frames, some ⟨numerator, token.offset⟩, .opening⟩
    | _ => .error ⟨token.offset, .unexpected token.kind⟩
  | .closer delimiter =>
    match s.focus, s.division, s.frames with
    | .factor run term, division, frames => do
      let inside ← closeLevel limit division run term
      match frames with
      | [] => throw ⟨token.offset, .strayCloser⟩
      | frame :: outer =>
        if frame.delimiter = delimiter then
          let group ← frame.wrap limit inside
          return ⟨outer, frame.division, frame.slot.fill group⟩
        else
          throw ⟨token.offset, .wrongCloser frame.delimiter frame.offset delimiter⟩
    | .opening, none, frame :: _ =>
      .error ⟨token.offset, if frame.delimiter = delimiter then .emptyGroup else .unexpected token.kind⟩
    | _, _, _ => .error ⟨token.offset, .unexpected token.kind⟩

/-- the formula, if the text may end here; `ending` is the offset behind the text -/
def State.finish (limit ending : Nat) (s : State) : Except SyntaxError Expr :=
  match s.focus with
  | .factor run term => do
    let whole ← closeLevel limit s.division run term
    match s.frames with
    | [] => return whole.expr
    | frame :: _ => throw ⟨ending, .unclosed frame.delimiter frame.offset⟩
  | _ => .error ⟨ending, .unexpectedEnd⟩

/-- the formula that a list of tokens stands for; `ending` is the offset behind the text -/
def parseTokens (limit ending : Nat) (tokens : List Token) : Except SyntaxError Expr :=
  match tokens with
  | [] => .error ⟨0, .noTokens⟩
  | tokens => do
    let s ← tokens.foldlM (step limit) State.start
    s.finish limit ending

/-- the formula that a text stands for -/
def parse (input : String) : Except SyntaxError Expr :=
  parseTokens Formula.maxDepth input.length (tokenize input)

end FormulaLayout.Notation
