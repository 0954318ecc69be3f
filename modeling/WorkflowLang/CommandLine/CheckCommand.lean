import WorkflowLang.Compilation
import WorkflowLang.CommandLine.Sources
import WorkflowLang.Settings

/-!
# Checking files

The command reports the diagnostics of each file and sums them up.  Warnings let
it fail only where the settings say so.
-/

namespace WorkflowLang
namespace CheckCommand

def reports (settings : Settings) (source : SourceFile) : List Report :=
  (Compilation.ofText source.text).sortedDiagnostics.map fun diagnostic =>
    { diagnostic := diagnostic
      file := some source.path
      source := some source.text
      context := settings.contextLines }

def count (severity : Severity) (reports : List Report) : Nat :=
  reports.countP fun report =>
    report.diagnostic.problem.severity == severity

def countLabel (number : Nat) (noun : String) : String :=
  toString number ++ " " ++ noun ++ if number = 1 then "" else "s"

/-- The line that sums up the reports on so many files. -/
def summary (isColored : Bool) (fileCount : Nat) (reports : List Report) :
    String :=
  let files := countLabel fileCount "file"
  if reports.isEmpty then
    Sign.success.paint isColored ++ " " ++
      Style.dimmed.paint isColored ("No problems found in " ++ files)
  else
    let errors := countLabel (count .error reports) "error"
    let warnings := countLabel (count .warning reports) "warning"
    Sign.failure.paint isColored ++ " " ++
      Style.red.paint isColored errors ++ ", " ++
      Style.yellow.paint isColored warnings ++ " in " ++ files

def isSuccess (settings : Settings) (reports : List Report) : Bool :=
  count .error reports == 0 &&
    !(settings.warningsAsErrors && 0 < count .warning reports)

/-- Reports in order, with something behind them, up to the first one that stops
the program. -/
def showReports (isColored : Bool) (ending : Output) : List Report → Output
  | [] => ending
  | report :: others =>
      match report.render isColored with
      | .error abort => .aborted abort
      | .ok text => .errorLine text ++ showReports isColored ending others

def output (isColored : Bool) (settings : Settings)
    (sources : List SourceFile) : Output :=
  let reports := sources.flatMap (reports settings)
  let ending := .line (summary isColored sources.length reports) ++
    if isSuccess settings reports then Output.nothing else .unsuccessful
  showReports isColored ending reports

variable {m : Type → Type} [Monad m] [FileSystem m]

def run (isColored : Bool) (settings : Settings) (paths : List String) :
    m Output := do
  match ← SourceFile.readAll paths with
  | .error error => return error.output
  | .ok sources => return output isColored settings sources

end CheckCommand
end WorkflowLang
