/-
Where a path leads from an empty working directory.

A path is followed part by part. The directory itself, its parents and any path that ends like a directory cannot be
created as a file; a path through a directory that does not exist leads nowhere.
-/
namespace FormulaLayout.CommandLine

/-- why a file cannot be created -/
inductive CreateError where
  | notFound
  | isDirectory
  deriving DecidableEq, Repr

/-- the wording of the failure -/
def CreateError.message : CreateError → String
  | notFound => "No such file or directory (os error 2)"
  | isDirectory => "Is a directory (os error 21)"

/-- where a file is created: in the working directory, or somewhere above it -/
inductive Destination where
  | inside (name : String)
  | outside
  deriving DecidableEq, Repr

namespace Destination

/-- the parts of a path behind those that stay in place; `above` once the path has left the working directory -/
def follow (above : Bool) : List String → Except CreateError Destination
  | [] => .error .isDirectory
  | part :: rest =>
    if part = "" || part = "." then follow above rest
    else if part = ".." then follow true rest
    else if rest.isEmpty then .ok (if above then outside else inside part)
    else if rest.all (· = "") then .error .isDirectory
    else .error .notFound

/-- the place of a file in an empty working directory -/
def ofPath (path : String) : Except CreateError Destination :=
  follow (path.startsWith "/") (path.splitOn "/")

end Destination

end FormulaLayout.CommandLine
