import WorkflowLang.Files.Path

/-!
# Files

The operations on files that the commands need.  A command is written once, for
every monad with these operations, and runs on the files of a machine as well as
on a tree of files that is a value.
-/

namespace WorkflowLang

inductive FileError where
  | notFound
  | alreadyExists
  | notADirectory
  | isADirectory
  | nameTooLong
  /-- The path has a null character, which ends a path. -/
  | nullInPath
  | invalidText
  /-- Any other reason that a machine gives. -/
  | other (reason : String)
  deriving DecidableEq, Inhabited, Repr

namespace FileError

/-- The wording of a reason with the number that systems give it. -/
def numbered (reason : String) (number : Nat) : String :=
  reason ++ " (os error " ++ toString number ++ ")"

def message : FileError → String
  | .notFound => numbered "No such file or directory" 2
  | .alreadyExists => numbered "File exists" 17
  | .notADirectory => numbered "Not a directory" 20
  | .isADirectory => numbered "Is a directory" 21
  | .nameTooLong => numbered "File name too long" 36
  | .nullInPath => "file name contained an unexpected NUL byte"
  | .invalidText => "stream did not contain valid UTF-8"
  | .other reason => reason

end FileError

inductive FileKind where
  | file
  | directory
  deriving DecidableEq, Inhabited, Repr

class FileSystem (m : Type → Type) where
  /-- What a path leads to, if it leads to anything. -/
  kind? : String → m (Option FileKind)
  read : String → m (Except FileError String)
  /-- Gives a file a text, and makes the file if there is none. -/
  write : String → String → m (Except FileError Unit)
  /-- Makes a directory inside one that exists. -/
  makeDirectory : String → m (Except FileError Unit)

namespace FileSystem

variable {m : Type → Type} [Monad m] [FileSystem m]

def isFile (path : String) : m Bool := do
  return (← kind? path) = some .file

def ensureDirectory (path : String) : m (Except FileError Unit) := do
  match ← makeDirectory path with
  | .ok _ => return .ok ()
  | .error error =>
      if (← kind? path) = some .directory then return .ok ()
      else return .error error

/-- Makes a directory and the missing ones around it, which follow it in the
list from the inside to the outside. -/
def ensureDirectories : List String → m (Except FileError Unit)
  | [] => return .ok ()
  | path :: outer => do
      match ← ensureDirectory path with
      | .error .notFound =>
          match ← ensureDirectories outer with
          | .ok _ => ensureDirectory path
          | .error error => return .error error
      | result => return result

end FileSystem
end WorkflowLang
