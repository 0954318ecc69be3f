import WorkflowLang.Report.Style
import WorkflowLang.Text.Excerpt

/-!
# Output of the command line

The output of a command is what it prints on the two streams and the code that
it ends with.  Commands put it together from parts.
-/

namespace WorkflowLang

/-- What a command prints and the code that it ends with. -/
structure Output where
  exitCode : Nat := 0
  standardOutput : String := ""
  standardError : String := ""
  deriving DecidableEq, Inhabited, Repr

namespace Output

def nothing : Output := {}

def line (text : String) : Output := { standardOutput := text ++ "\n" }

/-- A line on the stream for errors. -/
def errorLine (text : String) : Output := { standardError := text ++ "\n" }

/-- No output, but not a success. -/
def unsuccessful : Output := { exitCode := 1 }

/-- One output behind another.  The greater code counts. -/
def append (first second : Output) : Output where
  exitCode := max first.exitCode second.exitCode
  standardOutput := first.standardOutput ++ second.standardOutput
  standardError := first.standardError ++ second.standardError

instance : Append Output := ⟨append⟩

def concat (outputs : List Output) : Output :=
  outputs.foldl (· ++ ·) nothing

/-- The output of a program that stops before it has a result. -/
def aborted (abort : Abort) : Output :=
  { exitCode := 101, standardError := abort.message ++ "\n" }

def failure (message : String) (cause : Option String) : Output :=
  errorLine ("Error: " ++ message ++
    match cause with
    | none => ""
    | some cause => "\n\nCaused by:\n    " ++ cause) ++ unsuccessful

end Output

/-- The signs in front of lines of output. -/
inductive Sign where
  | success
  | failure
  | warning
  | settings
  deriving DecidableEq, Inhabited, Repr

def Sign.paint (isColored : Bool) : Sign → String
  | .success => Style.green.paint isColored "✓"
  | .failure => Style.red.paint isColored "✗"
  | .warning => Style.yellow.paint isColored "⚠"
  | .settings => Style.cyan.paint isColored "⚙"

end WorkflowLang
