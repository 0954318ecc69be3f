import WorkflowLang.Files
import WorkflowLang.Settings

/-!
# Files of settings

A directory may have a file of settings, under one of two names.  Where there is
neither, a file for all directories applies, and without that one the settings
are the default ones.
-/

namespace WorkflowLang

/-- Why the file of settings at a path could not be used. -/
inductive SettingsError where
  | unreadable (path : String) (cause : FileError)
  | malformed (path : String)
  | unwritable (path : String) (cause : FileError)
  | alreadyExists (path : String)
  deriving DecidableEq, Inhabited, Repr

namespace SettingsError

def message : SettingsError → String
  | .unreadable path _ => "Failed to read config file " ++ path
  | .malformed path => "Failed to parse config file " ++ path
  | .unwritable path _ => "Failed to write config file " ++ path
  | .alreadyExists path => "Config file " ++ path ++ " already exists"

def cause? : SettingsError → Option FileError
  | .unreadable _ cause | .unwritable _ cause => some cause
  | .malformed _ | .alreadyExists _ => none

end SettingsError

namespace Settings

variable {m : Type → Type} [Monad m] [FileSystem m]

/-- The name that a new file of settings gets in a directory. -/
def localName : String := ".actionflowrc"

/-- The names of a directory's files of settings.  The first one found
applies. -/
def localNames : List String := [localName, localName ++ ".toml"]

/-- The path of the file for all directories, inside the directory that holds a
user's settings. -/
def globalPath (settingsDirectory : String) : String :=
  Path.join (Path.join settingsDirectory "actionflow") "config.toml"

def firstFile : List String → m (Option String)
  | [] => return none
  | path :: others => do
      if ← FileSystem.isFile path then return some path
      else firstFile others

/-- The file of settings that applies to a directory. -/
def locate (globalFile : Option String) (directory : String) :
    m (Option String) :=
  firstFile (localNames.map (Path.join directory) ++ globalFile.toList)

def read (path : String) : m (Except SettingsError Settings) := do
  match ← FileSystem.read path with
  | .error cause => return .error (.unreadable path cause)
  | .ok text =>
      match parse? text with
      | none => return .error (.malformed path)
      | some settings => return .ok settings

/-- The settings that apply to a directory. -/
def load (globalFile : Option String) (directory : String) :
    m (Except SettingsError Settings) := do
  match ← locate globalFile directory with
  | some path => read path
  | none => return .ok {}

/-- Makes a file with the default document, and the directories that it needs.
Nothing that exists is overwritten. -/
def create (path : String) : m (Except SettingsError Unit) := do
  if (← FileSystem.kind? path).isSome then
    return .error (.alreadyExists path)
  match ← FileSystem.ensureDirectories (Path.enclosing path) with
  | .error cause => return .error (.unwritable path cause)
  | .ok _ =>
      match ← FileSystem.write path defaultDocument with
      | .error cause => return .error (.unwritable path cause)
      | .ok _ => return .ok ()

end Settings
end WorkflowLang
