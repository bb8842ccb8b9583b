/-
The arguments of the program.

Arguments are taken one after the other, and the first that stops the program decides: an error, or a request for the
help or the version. An option's value follows behind an equals sign or as the next argument, which must not look like
an option; a hyphen alone is no option. Behind two hyphens everything is positional. No option may be given twice.
-/
import FormulaLayout.Config
import FormulaLayout.Decimal.Reader

namespace FormulaLayout.CommandLine

/-- what is to be typeset, and how -/
structure Request where
  expression : String
  output : Option String
  scale : Float32
  font : String
  format : OutputFormat
  grid : Bool
  dumpTree : Bool
  verbose : Bool

/-- the configuration that a request asks for -/
def Request.config (r : Request) : Config :=
  { Config.standard with scale := r.scale, showGrid := r.grid, fontFamily := r.font, format := r.format }

/-- what is wrong with the arguments -/
inductive UsageError where
  | unknownOption (name : String)
  | missingValue (name : String)
  | unexpectedValue (name : String)
  | invalidValue (name value : String)
  | repeated (name : String)
  | extraPositional (text : String)
  | missingExpression
  deriving DecidableEq, Repr

/-- why the program stops in front of typesetting -/
inductive Stop where
  | help
  | version
  | usage (error : UsageError)
  deriving DecidableEq, Repr

/-- an argument by its form -/
inductive Word where
  | separator
  | long (name : String) (value : Option String)
  | short (letters : List Char)
  | plain (text : String)
  deriving DecidableEq, Repr

/-- the form of an argument; a hyphen alone is plain text -/
def Word.ofString (s : String) : Word :=
  match s.toList with
  | ['-', '-'] => .separator
  | '-' :: '-' :: rest =>
    let name := rest.takeWhile (· != '=')
    let value := match rest.drop name.length with
      | [] => none
      | _ :: value => some (String.ofList value)
    .long (String.ofList name) value
  | '-' :: letter :: letters => .short (letter :: letters)
  | _ => .plain s

/-- the options that take a value -/
inductive Setting where
  | scale
  | font
  | format
  deriving DecidableEq, Repr

/-- the options that take none -/
inductive Switch where
  | grid
  | dumpTree
  | verbose
  deriving DecidableEq, Repr

/-- the long name of an option with a value -/
def Setting.name : Setting → String
  | scale => "scale"
  | font => "font"
  | format => "format"

/-- the option with a value that has this long name -/
def Setting.ofName? (name : String) : Option Setting :=
  [scale, font, format].find? (·.name == name)

/-- the long name of an option without value -/
def Switch.name : Switch → String
  | grid => "grid"
  | dumpTree => "dump-tree"
  | verbose => "verbose"

/-- the option without value that has this long name -/
def Switch.ofName? (name : String) : Option Switch :=
  [grid, dumpTree, verbose].find? (·.name == name)

/-- what the arguments so far have set -/
structure Draft where
  expression : Option String
  output : Option String
  scale : Option Float32
  font : Option String
  format : Option OutputFormat
  grid : Bool
  dumpTree : Bool
  verbose : Bool

namespace Draft

/-- nothing set -/
def empty : Draft :=
  ⟨none, none, none, none, none, false, false, false⟩

/-- a value in an option's slot, which must be empty -/
def fill {β : Type} (setting : Setting) (value : String) (slot : Option β) (read : Option β) :
    Except Stop (Option β) :=
  match slot, read with
  | some _, _ => .error (.usage (.repeated setting.name))
  | none, none => .error (.usage (.invalidValue setting.name value))
  | none, some v => .ok (some v)

/-- the format of this name, in lower case only -/
def formatOf? (name : String) : Option OutputFormat :=
  if name = "svg" then some .svg else if name = "json" then some .json else none

/-- an option with its value -/
def set (d : Draft) (setting : Setting) (value : String) : Except Stop Draft :=
  match setting with
  | .scale => return { d with scale := ← fill setting value d.scale (Decimal.parse? value) }
  | .font => return { d with font := ← fill setting value d.font (some value) }
  | .format => return { d with format := ← fill setting value d.format (formatOf? value) }

/-- an option without value -/
def turnOn (d : Draft) (switch : Switch) : Except Stop Draft :=
  let (isOn, after) : Bool × Draft := match switch with
    | .grid => (d.grid, { d with grid := true })
    | .dumpTree => (d.dumpTree, { d with dumpTree := true })
    | .verbose => (d.verbose, { d with verbose := true })
  if isOn then .error (.usage (.repeated switch.name)) else .ok after

/-- the next positional argument; the path of the output must not be empty -/
def addPositional (d : Draft) (text : String) : Except Stop Draft :=
  match d.expression, d.output with
  | none, _ => .ok { d with expression := some text }
  | some _, none =>
    if text.isEmpty then .error (.usage (.invalidValue "output" text)) else .ok { d with output := some text }
  | some _, some _ => .error (.usage (.extraPositional text))

/-- a cluster of one-letter options -/
def addLetters (d : Draft) : List Char → Except Stop Draft
  | [] => .ok d
  | 'v' :: rest => do (← d.turnOn .verbose).addLetters rest
  | 'V' :: _ => .error .version
  | 'h' :: _ => .error .help
  | letter :: _ => .error (.usage (.unknownOption (String.singleton letter)))

/-- the request, once all arguments have been taken -/
def complete (d : Draft) : Except Stop Request :=
  match d.expression with
  | none => .error (.usage .missingExpression)
  | some expression =>
    .ok
      { expression
        output := d.output
        scale := d.scale.getD 1.0
        font := d.font.getD "Courier"
        format := d.format.getD .svg
        grid := d.grid
        dumpTree := d.dumpTree
        verbose := d.verbose }

/-- a long option without a setting's value in the next argument -/
def addLong (d : Draft) (name : String) (value : Option String) : Except Stop Draft :=
  match Switch.ofName? name, value with
  | some switch, none => d.turnOn switch
  | some _, some _ => .error (.usage (.unexpectedValue name))
  | none, value =>
    if name = "help" || name = "version" then
      if value.isSome then .error (.usage (.unexpectedValue name))
      else .error (if name = "help" then .help else .version)
    else .error (.usage (.unknownOption name))

/-- all arguments that are left -/
def addAll (d : Draft) : List String → Except Stop Draft
  | [] => .ok d
  | argument :: rest =>
    match Word.ofString argument with
    | .separator => rest.foldlM addPositional d
    | .plain text => do (← d.addPositional text).addAll rest
    | .short letters => do (← d.addLetters letters).addAll rest
    | .long name value =>
      match Setting.ofName? name, value with
      | none, value => do (← d.addLong name value).addAll rest
      | some setting, some value => do (← d.set setting value).addAll rest
      | some setting, none =>
        match rest with
        | [] => .error (.usage (.missingValue name))
        | value :: rest =>
          match Word.ofString value with
          | .plain value => do (← d.set setting value).addAll rest
          | _ => .error (.usage (.missingValue name))

end Draft

/-- the request that the arguments make, or why there is none -/
def parse (arguments : List String) : Except Stop Request := do
  let draft ← Draft.empty.addAll arguments
  draft.complete

end FormulaLayout.CommandLine
