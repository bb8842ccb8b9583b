/-
A formula that has been read in part.

A term is a factor with its scripts, a run is a sequence of terms, a level is a run or a division of runs from left to
right. `State` holds the level that is being read and, in its frames, the levels around it, one for each delimiter that
is open. The focus says what was read last: nothing of the current run, a factor, or a script marker.

Every finished part carries an upper bound on its levels, and closing a term, a run or a division checks the bound
against a limit. The check reports the offset of the token that made the part too deep: the last script marker, the
first token of the run, or the slash.
-/
import FormulaLayout.Formula.Join
import FormulaLayout.Notation.SyntaxError

namespace FormulaLayout.Notation

/-- a finished part and a bound on its levels -/
structure Part where
  expr : Expr
  levels : Nat

/-- a factor with the scripts read so far; `marker` is the offset of the last script marker -/
structure Term where
  base : Part
  superscript : Option Part
  subscript : Option Part
  marker : Nat

/-- the terms of a run before the current one, the latest first, and the offset of the run's first token -/
structure Run where
  start : Nat
  terms : List Part

/-- a numerator and the offset of its slash -/
structure Division where
  numerator : Part
  slash : Nat

/-- what was read last -/
inductive Focus where
  | opening
  | factor (run : Run) (term : Term)
  | marker (run : Run) (term : Term) (side : Side)

/-- where the next factor goes: it begins a term of a run, or it is a script -/
inductive Slot where
  | base (run : Run)
  | script (run : Run) (term : Term) (side : Side)

/-- an open delimiter, the division in front of it on its level, and the slot that the group will fill -/
structure Frame where
  delimiter : Delimiter
  offset : Nat
  division : Option Division
  slot : Slot

/-- a formula read in part; the innermost frame comes first -/
structure State where
  frames : List Frame
  division : Option Division
  focus : Focus

/-- the part with its bound, if the bound keeps to the limit -/
def Part.checked (limit offset : Nat) (part : Part) : Except SyntaxError Part :=
  if limit < part.levels then .error ⟨offset, .tooManyLevels limit⟩ else .ok part

/-- a glyph, which has one level -/
def Part.ofChar (c : Char) : Part :=
  ⟨Formula.character c, 1⟩

namespace Term

/-- a factor without scripts -/
def ofBase (base : Part) : Term :=
  ⟨base, none, none, 0⟩

/-- the script on one side, if it has been read -/
def script? (term : Term) : Side → Option Part
  | .above => term.superscript
  | .below => term.subscript

/-- the term with a script on one side -/
def attach (term : Term) (part : Part) : Side → Term
  | .above => { term with superscript := some part }
  | .below => { term with subscript := some part }

/-- the finished term: its base if it has no scripts -/
def close (limit : Nat) (term : Term) : Except SyntaxError Part :=
  match term.superscript, term.subscript with
  | none, none => .ok term.base
  | superscript, subscript =>
    Part.checked limit term.marker
      { expr := Formula.withScripts term.base.expr (superscript.map Part.expr) (subscript.map Part.expr)
        levels := 1 + max term.base.levels
          (max (superscript.elim 0 Part.levels) (subscript.elim 0 Part.levels)) }

end Term

namespace Run

/-- the run with one more term before the current one -/
def push (run : Run) (term : Part) : Run :=
  { run with terms := term :: run.terms }

/-- the balanced join of the run with its last term, if the bound on its levels keeps to the limit -/
def close (limit : Nat) (run : Run) (last : Part) : Except SyntaxError Part :=
  let terms := (last :: run.terms).reverse
  let levels := Formula.joinLevels terms.length + (terms.map Part.levels).foldl max 0
  if limit < levels then .error ⟨run.start, .tooManyLevels limit⟩
  else
    match Formula.concatAll (terms.map Part.expr) with
    | some expr => .ok ⟨expr, levels⟩
    | none => .error ⟨run.start, .emptyRun⟩

end Run

/-- the finished level: the last term, its run, and the division in front of it -/
def closeLevel (limit : Nat) (division : Option Division) (run : Run) (term : Term) : Except SyntaxError Part := do
  let last ← term.close limit
  let joined ← run.close limit last
  match division with
  | none => return joined
  | some ⟨numerator, slash⟩ =>
    Part.checked limit slash
      ⟨Formula.divide numerator.expr joined.expr, 1 + max numerator.levels joined.levels⟩

/-- where a factor at an offset goes; a finished term joins its run -/
def Focus.slot (limit offset : Nat) : Focus → Except SyntaxError Slot
  | .opening => .ok (.base ⟨offset, []⟩)
  | .factor run term => return .base (run.push (← term.close limit))
  | .marker run term side => .ok (.script run term side)

/-- the focus behind a factor that fills a slot -/
def Slot.fill (part : Part) : Slot → Focus
  | .base run => .factor run (.ofBase part)
  | .script run term side => .factor run (term.attach part side)

/-- the group that a delimiter opened at an offset makes of its inside: parentheses are a node, braces are none -/
def Part.grouped (limit offset : Nat) (delimiter : Delimiter) (inside : Part) : Except SyntaxError Part :=
  match delimiter with
  | .paren => Part.checked limit offset ⟨Formula.parenthesize inside.expr, inside.levels + 1⟩
  | .brace => .ok inside

/-- the group of an open delimiter -/
def Frame.wrap (limit : Nat) (frame : Frame) (inside : Part) : Except SyntaxError Part :=
  inside.grouped limit frame.offset frame.delimiter

/-- nothing read -/
def State.start : State :=
  ⟨[], none, .opening⟩

end FormulaLayout.Notation
