import WorkflowLang.CommandLine.Arguments
import WorkflowLang.CommandLine.CheckCommand
import WorkflowLang.CommandLine.FormatCommand
import WorkflowLang.CommandLine.SettingsCommand

/-!
# The command line

The program reads its arguments, then its settings, and then runs a command.
-/

namespace WorkflowLang

/-- What the program knows about its surroundings. -/
structure Surroundings where
  settingsDirectory : Option String
  showsColors : Bool
  deriving DecidableEq, Inhabited, Repr

namespace CommandLine

def version : String := "actionflow 0.0.1\n"

def usage : String :=
  "Checker and formatter for workflow files\n\n" ++
    "Usage: actionflow [OPTIONS] <COMMAND>\n\n" ++
    "Commands:\n" ++
    "  check   Report problems in workflow files\n" ++
    "  fmt     Format workflow files in place\n" ++
    "  config  Show the effective configuration\n" ++
    "  help    Print this message or the help of the given subcommand(s)\n\n" ++
    "Options:\n" ++
    "  -v, --verbose        Log what the tool is doing\n" ++
    "      --no-color       Disable colored output\n" ++
    "      --config <FILE>  Use this config file instead of searching for one\n" ++
    "  -h, --help           Print help\n" ++
    "  -V, --version        Print version\n"

/-- The output where no command runs. -/
def stopOutput : ArgumentStop → Output
  | .misuse => { exitCode := 2, standardError := usage }
  | .helpWanted => { standardOutput := usage }
  | .versionWanted => { standardOutput := version }

variable {m : Type → Type} [Monad m] [FileSystem m]

/-- Runs a command under settings that the flags have already overridden. -/
def runCommand (surroundings : Surroundings) (settings : Settings)
    (invocation : Invocation) : m Output :=
  let isColored := settings.isColored && surroundings.showsColors
  let globalFile := surroundings.settingsDirectory.map Settings.globalPath
  match invocation.command with
  | .check paths => CheckCommand.run isColored settings paths
  | .format paths isDry => FormatCommand.run isColored settings paths isDry
  | .showSettings isGlobal =>
      SettingsCommand.display isColored settings globalFile
        invocation.settingsFile isGlobal
  | .createSettings false =>
      SettingsCommand.create isColored Settings.localName
  | .createSettings true =>
      match globalFile with
      | some path => SettingsCommand.create isColored path
      | none =>
          return .failure "Could not determine config directory" none

def run (surroundings : Surroundings) (arguments : List String) :
    m Output := do
  match Invocation.ofArguments arguments with
  | .error stop => return stopOutput stop
  | .ok invocation =>
      let loaded ←
        match invocation.settingsFile with
        | some path => Settings.read path
        | none =>
            Settings.load
              (surroundings.settingsDirectory.map Settings.globalPath) "."
      match loaded with
      | .error error => return error.output
      | .ok settings =>
          runCommand surroundings (settings.override invocation.overrides)
            invocation

end CommandLine
end WorkflowLang
