import WorkflowLang.CommandLine.Output
import WorkflowLang.Settings.SettingsFile

/-!
# Showing and creating settings

One command shows the settings that apply and where they come from, the other
one creates a file of settings.
-/

namespace WorkflowLang

/-- The output of a command that ends with an error in a file of settings. -/
def SettingsError.output (error : SettingsError) : Output :=
  .failure error.message (error.cause?.map FileError.message)

namespace SettingsCommand

/-- The line that says where the settings come from. -/
def location (isColored : Bool) (path : Option String) : Output :=
  .line (Sign.settings.paint isColored ++ " Configuration: " ++
    path.getD "defaults (no config file found)")

def table (isColored : Bool) (settings : Settings) : Output :=
  .concat (settings.entries.map fun entry =>
    .line ("  " ++ Style.name.paint isColored entry.1 ++ " = " ++ entry.2))

variable {m : Type → Type} [Monad m] [FileSystem m]

/-- The file to show: one that was named, the one for all directories, or the
one that applies to the working directory. -/
def shownFile (globalFile namedFile : Option String) (isGlobal : Bool) :
    m (Option String) :=
  match namedFile with
  | some path => return some path
  | none =>
      if isGlobal then Settings.firstFile globalFile.toList
      else Settings.locate globalFile "."

/-- Shows settings and where they come from.  The settings of the file for all
directories are shown as they stand there, others as they apply. -/
def display (isColored : Bool) (settings : Settings)
    (globalFile namedFile : Option String) (isGlobal : Bool) : m Output := do
  let file ← shownFile globalFile namedFile isGlobal
  let heading := location isColored file ++ .line ""
  match isGlobal, file with
  | true, none => return .failure "No global config file found" none
  | true, some path =>
      match ← Settings.read path with
      | .error error => return heading ++ error.output
      | .ok stored => return heading ++ table isColored stored
  | false, _ => return heading ++ table isColored settings

def create (isColored : Bool) (path : String) : m Output := do
  match ← Settings.create path with
  | .error error => return error.output
  | .ok _ =>
      return .line (Sign.success.paint isColored ++ " Created " ++ path)

end SettingsCommand
end WorkflowLang
