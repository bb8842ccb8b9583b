/-
The parser by recursive descent.

Each rule of the grammar is a procedure that takes its tokens from a cursor: `expression`, `concat`, `term` and
`factor`, with the loops of the first three (`quotients`, `terms`, `scripts`) and the inside of a delimiter (`group`). A
procedure looks at most one token ahead. The reader that they share counts the delimiters that are open, and `group`
refuses one more than `limit` of them; it lowers the counter before it passes an error on.

A call has room for so many calls inside one another, where the next round of a loop counts as one; a call that would
need more has no answer. The reader also keeps what a run is measured by, and `depth` is the number of calls of `group`
that a call is made inside of. No answer depends on either. A call of `group` is counted as soon as it is made, and once
more when the limit has let it in.
-/
import FormulaLayout.Formula.Measures
import FormulaLayout.Notation.Cursor
import FormulaLayout.Notation.Reading

namespace FormulaLayout.Notation

/-- the place in a text and the delimiters that are open there -/
structure Reader where
  cursor : Cursor
  nesting : Nat
  /-- the greatest value that `nesting` has had -/
  highest : Nat
  /-- the most calls of `group` that have been under way inside one another -/
  live : Nat
  /-- the most of them that the limit has let in -/
  admitted : Nat

namespace Reader

/-- the start of a text -/
def ofString (input : String) : Reader :=
  ⟨.ofString input, 0, 0, 0, 0⟩

/-- the tokens that are left -/
def tokens (r : Reader) : List Token :=
  r.cursor.toList

/-- one more delimiter is open -/
def raise (r : Reader) : Reader :=
  { r with nesting := r.nesting + 1, highest := max r.highest (r.nesting + 1) }

/-- one delimiter less is open -/
def lower (r : Reader) : Reader :=
  { r with nesting := r.nesting - 1 }

/-- so many calls of `group` are under way -/
def enter (depth : Nat) (r : Reader) : Reader :=
  { r with live := max r.live depth }

/-- so many calls of `group` have been let in -/
def letIn (depth : Nat) (r : Reader) : Reader :=
  { r with admitted := max r.admitted depth }

end Reader

/-- a computation on the reader: an error leaves the reader where it was noticed, and `none` is no answer at all -/
abbrev Descent :=
  ExceptT SyntaxError (StateT Reader Option)

namespace Descent

/-- the next token, left in place -/
def peek : Descent (Option Token) :=
  modifyGet fun r => (r.cursor.peek.1, { r with cursor := r.cursor.peek.2 })

/-- the next token, taken -/
def next : Descent (Option Token) :=
  modifyGet fun r => (r.cursor.next.1, { r with cursor := r.cursor.next.2 })

/-- the result of a computation, an error as well, for what is to be done in either case -/
def attempt {α : Type} (x : Descent α) : Descent (Except SyntaxError α) :=
  ExceptT.lift x.run

/-- an error if the next token closes the delimiter -/
def refuseEmpty (delimiter : Delimiter) : Descent Unit := do
  match ← peek with
  | some ⟨.closer found, offset⟩ => if found = delimiter then throw ⟨offset, .emptyGroup⟩ else return
  | _ => return

/-- takes the closer of a delimiter that was opened at an offset -/
def closeGroup (ending : Nat) (delimiter : Delimiter) (opened : Nat) (inside : Part) : Descent Part := do
  match ← next with
  | none => throw ⟨ending, .unclosed delimiter opened⟩
  | some ⟨.closer found, offset⟩ =>
    if found = delimiter then return inside else throw ⟨offset, .wrongCloser delimiter opened found⟩
  -- an expression stops only in front of a closer or at the end
  | some ⟨kind, offset⟩ => throw ⟨offset, .unexpected kind⟩

/-- the procedures, and the loops in them with what they have read -/
inductive Procedure where
  /-- runs with slashes between them -/
  | expression
  | quotients (parsed : Part)
  /-- a run of terms -/
  | concat
  | terms (run : Run) (last : Part)
  /-- a factor with its scripts, at most one on a side -/
  | term
  | scripts (term : Term)
  /-- a character or a group -/
  | factor
  /-- the inside of a delimiter that was opened at an offset, and its closer -/
  | group (delimiter : Delimiter) (opened : Nat)

/-- what a procedure does, given the calls that it makes -/
def body (limit ending : Nat) (call : Nat → Procedure → Descent Part) (depth : Nat) : Procedure → Descent Part
  | .expression => do
    call depth (.quotients (← call depth .concat))
  | .quotients parsed => do
    match ← peek with
    | some ⟨.slash, offset⟩ =>
      let _ ← next
      let denominator ← call depth .concat
      call depth (.quotients (← Part.checked limit offset
        ⟨Formula.divide parsed.expr denominator.expr, 1 + max parsed.levels denominator.levels⟩))
    | _ => return parsed
  | .concat => do
    let start := (← peek).elim ending Token.offset
    call depth (.terms ⟨start, []⟩ (← call depth .term))
  | .terms run last => do
    match ← peek with
    | some ⟨.char _, _⟩ | some ⟨.opener _, _⟩ => call depth (.terms (run.push last) (← call depth .term))
    | _ => run.close limit last
  | .term => do
    call depth (.scripts (.ofBase (← call depth .factor)))
  | .scripts term => do
    match ← peek with
    | some ⟨.marker side, offset⟩ =>
      if (term.script? side).isSome then
        throw ⟨offset, .duplicateScript side⟩
      else
        let _ ← next
        let script ← call depth .factor
        call depth (.scripts ({ term with marker := offset }.attach script side))
    | _ => term.close limit
  | .factor => do
    match ← next with
    | none => throw ⟨ending, .unexpectedEnd⟩
    | some ⟨.char c, _⟩ => return .ofChar c
    | some ⟨.opener delimiter, offset⟩ =>
      Part.grouped limit offset delimiter (← call depth (.group delimiter offset))
    | some ⟨kind, offset⟩ => throw ⟨offset, .unexpected kind⟩
  | .group delimiter opened => do
    modify (Reader.enter (depth + 1))
    if limit ≤ (← get).nesting then
      throw ⟨opened, .nestedTooDeep limit⟩
    else
      modify (Reader.letIn (depth + 1))
      refuseEmpty delimiter
      modify Reader.raise
      let inside ← attempt (call (depth + 1) .expression)
      modify Reader.lower
      closeGroup ending delimiter opened (← inside)

/-- a call of a procedure with room for so many calls inside one another -/
def call (limit ending : Nat) : Nat → Nat → Procedure → Descent Part
  | 0, _, _ => fun _ => none
  | room + 1, depth, p => body limit ending (call limit ending room) depth p

/-- the whole text as one expression -/
def formula (limit ending room : Nat) : Descent Expr := do
  if (← peek).isNone then
    throw ⟨0, .noTokens⟩
  let parsed ← call limit ending room 0 .expression
  match ← next with
  | none => return parsed.expr
  | some ⟨.closer _, offset⟩ => throw ⟨offset, .strayCloser⟩
  | some ⟨kind, offset⟩ => throw ⟨offset, .unexpected kind⟩

/-- the formula that a text stands for, and the reader behind it -/
def parse (room : Nat) (input : String) : Option (Except SyntaxError Expr × Reader) :=
  (formula Formula.maxDepth input.length room).run.run (.ofString input)

end Descent

end FormulaLayout.Notation
