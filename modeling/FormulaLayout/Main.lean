/-
The program: arguments in, a document out.
-/
import FormulaLayout.CommandLine.Report

namespace FormulaLayout.CommandLine

/-- shows a report: its log and messages on the standard error, its document on the standard output -/
def showReport (report : Report) : IO UInt32 := do
  for message in report.log do
    IO.eprintln ("INFO " ++ message)
  for line in report.stderr do
    IO.eprintln line
  IO.print report.stdout
  return report.code.toUInt32

/-- creates an empty file -/
def createFile (path : String) : IO (Except CreateError Unit) :=
  tryCatch (do IO.FS.writeFile path ""; return .ok ()) fun error =>
    return .error (match error with | .noFileOrDirectory .. => .notFound | _ => .isDirectory)

/-- the program in the current working directory -/
def runProgram (arguments : List String) : IO UInt32 := do
  match parse arguments with
  | .error stop => showReport stop.report
  | .ok request =>
    match request.output with
    | none => showReport (request.execute .unlimited fun _ => .ok .unlimited)
    | some path =>
      let created ← createFile path
      let report := request.execute .unlimited fun _ => created.map fun _ => .unlimited
      if let .ok () := created then
        IO.FS.writeFile path (report.file.getD "")
      showReport report

end FormulaLayout.CommandLine

def main (arguments : List String) : IO UInt32 :=
  FormulaLayout.CommandLine.runProgram arguments
