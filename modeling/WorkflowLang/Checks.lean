import WorkflowLang.Checks.Blocks
import WorkflowLang.Checks.Dependencies
import WorkflowLang.Checks.References
import WorkflowLang.Checks.Secrets
import WorkflowLang.Checks.Values

/-!
# Checks of documents

Five checks look at a whole document, independently of each other and in a fixed
order.  Three of their problems are reported only once, however often a check
runs: `Notices` remembers which have been.
-/

namespace WorkflowLang

inductive Check where
  | blocks
  | dependencies
  | references
  | secrets
  | values
  deriving DecidableEq, Inhabited, Repr

/-- Which of the problems that are reported once have been reported. -/
structure Notices where
  tooManyActions : Bool
  circularDependency : Bool
  tooManySecrets : Bool
  deriving DecidableEq, Inhabited, Repr

namespace Notices

/-- Nothing has been reported. -/
def none : Notices := ⟨false, false, false⟩

/-- Remembers the problem of a report if it is one of the three. -/
def note (notices : Notices) (diagnostic : Diagnostic) : Notices :=
  match diagnostic.problem with
  | .tooManyActions => { notices with tooManyActions := true }
  | .circularDependency _ => { notices with circularDependency := true }
  | .tooManySecrets => { notices with tooManySecrets := true }
  | _ => notices

end Notices

namespace Check

def all : List Check :=
  [.blocks, .dependencies, .references, .secrets, .values]

def diagnostics (notices : Notices) (document : Document) :
    Check → List Diagnostic
  | .blocks => Checks.blocks notices.tooManyActions document
  | .dependencies =>
      Checks.dependencies notices.circularDependency document
  | .references => Checks.references document
  | .secrets => Checks.secrets notices.tooManySecrets document
  | .values => Checks.values document

/-- The reports of some checks that run one after the other. -/
def runs (notices : Notices) (document : Document) :
    List Check → List (List Diagnostic)
  | [] => []
  | check :: others =>
      let found := check.diagnostics notices document
      found :: runs (found.foldl Notices.note notices) document others

end Check

def Document.checkDiagnostics (document : Document) : List Diagnostic :=
  Check.all.flatMap (Check.diagnostics Notices.none document)

end WorkflowLang
