import WorkflowLang.Report
import WorkflowLang.Toml.Document

/-!
# Settings

The settings of the command line.  They come from a TOML document, in which
every setting may be missing, and flags of the command line override them.
-/

namespace WorkflowLang

structure Settings where
  isColored : Bool := true
  /-- The number of lines shown above and below a reported line. -/
  contextLines : Nat := Report.defaultContext
  warningsAsErrors : Bool := false
  /-- The number of spaces of one level of indentation. -/
  indentWidth : Nat := 2
  usesTabs : Bool := false
  deriving DecidableEq, Inhabited, Repr

structure Overrides where
  withoutColor : Bool := false
  warningsAsErrors : Bool := false
  contextLines : Option Nat := none
  deriving DecidableEq, Inhabited, Repr

namespace Settings

/-- A truth value of a document.  An item of another type is no setting. -/
def flag? (document : Toml.Entries) (key : String) (absent : Bool) :
    Option Bool :=
  match document.lookup key with
  | none => some absent
  | some (.boolean value) => some value
  | some _ => none

/-- A count of a document.  A negative integer or an item of another type is no
setting. -/
def count? (document : Toml.Entries) (key : String) (absent : Nat) :
    Option Nat :=
  match document.lookup key with
  | none => some absent
  | some (.integer (.ofNat value)) => some value
  | some _ => none

/-- The settings of a document.  Other keys have no meaning. -/
def ofDocument? (document : Toml.Entries) : Option Settings := do
  let absent : Settings := {}
  return {
    isColored := ← flag? document "colored" absent.isColored
    contextLines := ← count? document "context_lines" absent.contextLines
    warningsAsErrors :=
      ← flag? document "warnings_as_errors" absent.warningsAsErrors
    indentWidth := ← count? document "indent_width" absent.indentWidth
    usesTabs := ← flag? document "use_tabs" absent.usesTabs }

def parse? (text : String) : Option Settings :=
  Toml.parse? text >>= ofDocument?

/-- The settings under flags: a flag that is not given changes nothing. -/
def override (settings : Settings) (overrides : Overrides) : Settings :=
  { settings with
    isColored := settings.isColored && !overrides.withoutColor
    warningsAsErrors :=
      settings.warningsAsErrors || overrides.warningsAsErrors
    contextLines := overrides.contextLines.getD settings.contextLines }

def indent (settings : Settings) : String :=
  if settings.usesTabs then "\t"
  else String.ofList (List.replicate settings.indentWidth ' ')

/-- The settings as keys and values of a document. -/
def entries (settings : Settings) : List (String × String) :=
  [("colored", toString settings.isColored),
    ("context_lines", toString settings.contextLines),
    ("warnings_as_errors", toString settings.warningsAsErrors),
    ("indent_width", toString settings.indentWidth),
    ("use_tabs", toString settings.usesTabs)]

/-- A document that says what the settings are when it is missing, with a
comment on each. -/
def defaultDocument : String :=
  "# actionflow configuration file\n\n" ++
    "# Enable colored output in terminal\n" ++
    "colored = true\n\n" ++
    "# Lines of source shown around each diagnostic\n" ++
    "context_lines = 2\n\n" ++
    "# Fail `actionflow check` on warnings too\n" ++
    "warnings_as_errors = false\n\n" ++
    "# Indentation used by `actionflow fmt`\n" ++
    "indent_width = 2\n" ++
    "use_tabs = false\n"

end Settings
end WorkflowLang
