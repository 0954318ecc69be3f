/-!
# Paths

A path is a text of parts with slashes between them.  Repeated slashes count
once, and a part of a single point leads nowhere.
-/

namespace WorkflowLang
namespace Path

def isAbsolute (path : String) : Bool := path.toList.head? == some '/'

def parts (path : String) : List String :=
  (path.toList.splitOnP (· == '/')).filterMap fun part =>
    if part.isEmpty then none else some (String.ofList part)

def ofParts (isAbsolute : Bool) (parts : List String) : String :=
  (if isAbsolute then "/" else "") ++ "/".intercalate parts

/-- The path of something inside a directory. -/
def join (directory path : String) : String :=
  if isAbsolute path || directory.isEmpty then path
  else if directory.toList.getLast? = some '/' then directory ++ path
  else directory ++ "/" ++ path

/-- The directories that a path leads through, the innermost first. -/
def enclosing (path : String) : List String :=
  let directories := ((parts path).filter (· != ".")).dropLast
  (List.range directories.length).reverse.map fun depth =>
    ofParts (isAbsolute path) (directories.take (depth + 1))

end Path
end WorkflowLang
