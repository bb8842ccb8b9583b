/-
What a run of the program leaves behind.

A request is typeset into the standard output, which passes text on line by line, or into a file, which takes it in
blocks. The file is created before anything else, so it is there, empty, when a stage fails in front of the output. Either
output may refuse what is written; the run fails then, and what the output took before stays there. A tree that was asked
for goes to the standard error and changes nothing else.
-/
import FormulaLayout.CommandLine.Arguments
import FormulaLayout.CommandLine.Destination
import FormulaLayout.Device.Buffered
import FormulaLayout.Layout.Listing
import FormulaLayout.Pipeline

namespace FormulaLayout.CommandLine

/-- the exit code, the standard output, the content of the output file if it was created, the log, and other messages -/
structure Report where
  code : Nat
  stdout : String
  file : Option String
  log : List String
  stderr : List String
  deriving DecidableEq, Repr

/-- the version that the program reports -/
def version : String := "0.1.0"

/-- the lines of a text; what follows the last line break is no line if it is empty -/
def linesOf (text : String) : List String :=
  match (text.splitOn "\n").reverse with
  | "" :: lines => lines.reverse
  | lines => lines.reverse

/-- the message that the log starts with -/
def greeting : String := "Typeset v" ++ version

/-- why a run failed, and what that was caused by if it had a cause of its own -/
structure Failure where
  message : String
  cause? : Option String
  deriving DecidableEq, Repr

/-- the lines that tell of a failure -/
def Failure.lines (failure : Failure) : List String :=
  linesOf ("Error: " ++ failure.message) ++
    match failure.cause? with
    | none => []
    | some cause => ["", "Caused by:", "    " ++ cause]

/-- a fault of the run as its failure; an output that refused is the cause of an error of its own -/
def Failure.ofFault (fault : Fault) : Failure where
  message := fault.message
  cause? :=
    match fault with
    | .io message => some message
    | _ => none

/-- the report of a request whose output file cannot be created -/
def uncreated (path : String) (error : CreateError) : Report where
  code := 1
  stdout := ""
  file := none
  log := [greeting]
  stderr := Failure.lines ⟨"cannot create " ++ path, some error.message⟩

/-- the bytes that the buffer of a file holds -/
def fileBuffer : Nat := 8192

/-- the bytes that the buffer of the standard output holds -/
def consoleBuffer : Nat := 1024

section

variable {σ τ : Type}

/-- a run into a file: what it made or how it failed, and the content of the file; a complete run flushes the file -/
def Request.runIntoFile (file : Output τ String) (r : Request) : Except Failure Rendering × String :=
  let device := Device.blockBuffered file fileBuffer
  match (Pipeline.mk r.config 0).run device r.expression (.start file) with
  | (.error fault, _, out) => (.error (.ofFault fault), out.close file)
  | (.ok rendering, _, out) =>
    match device.flush out with
    | ⟨out, none⟩ => (.ok rendering, out.close file)
    | ⟨out, some message⟩ => (.error ⟨message, none⟩, out.close file)

/-- a run into the standard output: what it made or how it failed, and what arrived there -/
def Request.runIntoConsole (console : Output σ String) (r : Request) : Except Failure Rendering × String :=
  let device := Device.lineBuffered console consoleBuffer
  let (result, _, out) := (Pipeline.mk r.config 0).run device r.expression (.start console)
  (result.mapError .ofFault, out.close console)

/-- the report of a run, given what has been written where -/
def Request.report (r : Request) (result : Except Failure Rendering) (stdout : String) (file : Option String) :
    Report :=
  match result with
  | .ok rendering =>
    { code := 0
      stdout
      file
      log := [greeting] ++ r.output.toList.map ("Wrote " ++ ·) ++ Stage.all.map Stage.name
        ++ [toString rendering.drawing.size]
      stderr := if r.dumpTree then linesOf rendering.tree.listing ++ [""] else [] }
  | .error failure =>
    { code := 1
      stdout
      file
      log := [greeting]
      stderr := failure.lines }

/-- the run of a request, given the standard output and what becomes of a file that is to be created -/
def Request.execute (console : Output σ String) (create : String → Except CreateError (Output τ String))
    (r : Request) : Report :=
  match r.output with
  | none =>
    let (result, text) := r.runIntoConsole console
    r.report result text none
  | some path =>
    match create path with
    | .error error => uncreated path error
    | .ok file =>
      let (result, text) := r.runIntoFile file
      r.report result "" (some text)

end

/-- the help text -/
def helpText : String :=
  "Usage: typeset [OPTIONS] <EXPRESSION> [OUTPUT]\n\n"
    ++ "  --scale <SCALE>    root scale\n"
    ++ "  --grid             draw axes and a unit grid\n"
    ++ "  --font <FONT>      font family\n"
    ++ "  --format <FORMAT>  svg or json\n"
    ++ "  --dump-tree        print the laid out tree to the standard error\n"
    ++ "  -v, --verbose      enable verbose logging\n"
    ++ "  -h, --help         print help\n"
    ++ "  -V, --version      print version\n"

/-- the report of a program that stops in front of typesetting -/
def Stop.report : Stop → Report
  | help => ⟨0, helpText, none, [], []⟩
  | version => ⟨0, "typeset " ++ CommandLine.version ++ "\n", none, [], []⟩
  | usage _ => ⟨2, "", none, [], []⟩

/-- the report of the program in an empty working directory with room for everything, and the files it leaves there -/
def runInEmptyDirectory (arguments : List String) : Report × List (String × String) :=
  match parse arguments with
  | .error stop => (stop.report, [])
  | .ok request =>
    let report := request.execute .unlimited fun path => (Destination.ofPath path).map fun _ => .unlimited
    match request.output.map Destination.ofPath with
    | some (.ok (.inside name)) => (report, [(name, report.file.getD "")])
    | _ => (report, [])

end FormulaLayout.CommandLine
