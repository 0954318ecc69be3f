import WorkflowLang.CommandLine.Output
import WorkflowLang.Files

/-!
# Source files

Commands on files read all of them before they print or change anything.
-/

namespace WorkflowLang

structure SourceFile where
  path : String
  text : String
  deriving DecidableEq, Inhabited, Repr

inductive SourceError where
  | unreadable (path : String) (cause : FileError)
  | unwritable (path : String) (cause : FileError)
  deriving DecidableEq, Inhabited, Repr

namespace SourceError

def output : SourceError → Output
  | .unreadable path cause =>
      .failure ("Failed to read " ++ path) (some cause.message)
  | .unwritable path cause =>
      .failure ("Failed to write " ++ path) (some cause.message)

end SourceError

namespace SourceFile

variable {m : Type → Type} [Monad m] [FileSystem m]

/-- Reads files in order, up to the first one that is unreadable. -/
def readAll : List String → m (Except SourceError (List SourceFile))
  | [] => return .ok []
  | path :: others => do
      match ← FileSystem.read path with
      | .error cause => return .error (.unreadable path cause)
      | .ok text =>
          match ← readAll others with
          | .error error => return .error error
          | .ok sources => return .ok (⟨path, text⟩ :: sources)

end SourceFile
end WorkflowLang
