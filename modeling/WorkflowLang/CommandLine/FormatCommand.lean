import WorkflowLang.CommandLine.Sources
import WorkflowLang.Layout
import WorkflowLang.Settings

/-!
# Formatting files

The command gives each file its canonical layout.  Files with syntax errors are
left alone, and a dry run leaves all files alone.
-/

namespace WorkflowLang

inductive Formatting where
  | unchanged
  | changed (text : String)
  | hasSyntaxErrors
  deriving DecidableEq, Inhabited, Repr

namespace Formatting

def ofText (indent text : String) : Formatting :=
  match (Compilation.ofText text).format? indent with
  | none => .hasSyntaxErrors
  | some formatted => if formatted = text then .unchanged else .changed formatted

end Formatting

namespace FormatCommand

def skipped (isColored : Bool) (path : String) : Output :=
  .errorLine (Sign.warning.paint isColored ++ " Skipped " ++ path ++
    ": fix its syntax errors first (see `actionflow check`)") ++
    .unsuccessful

/-- The output of a dry run on a file that would change. -/
def announced (isColored : Bool) (path : String) : Output :=
  .line (Sign.failure.paint isColored ++ " Would reformat " ++ path) ++
    .unsuccessful

def formatted (isColored : Bool) (path : String) : Output :=
  .line (Sign.success.paint isColored ++ " Formatted " ++ path)

variable {m : Type → Type} [Monad m] [FileSystem m]

/-- Writes the files that change, in order, up to the first one that is
unwritable. -/
def carryOut (isColored isDry : Bool) :
    List (String × Formatting) → m Output
  | [] => return .nothing
  | (path, formatting) :: others => do
      match formatting with
      | .unchanged => carryOut isColored isDry others
      | .hasSyntaxErrors =>
          return skipped isColored path ++ (← carryOut isColored isDry others)
      | .changed text =>
          if isDry then
            return announced isColored path ++
              (← carryOut isColored isDry others)
          else
            match ← FileSystem.write path text with
            | .error cause =>
                return (SourceError.unwritable path cause).output
            | .ok _ =>
                return formatted isColored path ++
                  (← carryOut isColored isDry others)

def run (isColored : Bool) (settings : Settings) (paths : List String)
    (isDry : Bool) : m Output := do
  match ← SourceFile.readAll paths with
  | .error error => return error.output
  | .ok sources =>
      carryOut isColored isDry (sources.map fun source =>
        (source.path, Formatting.ofText settings.indent source.text))

end FormatCommand
end WorkflowLang
