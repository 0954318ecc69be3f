import WorkflowLang.Checks.Event
import WorkflowLang.Checks.Address
import WorkflowLang.Document
import WorkflowLang.Diagnostic

/-!
# Values of a fixed form

Events have to be known, addresses well formed, and environment variables must
stay out of the reserved name space.
-/

namespace WorkflowLang
namespace Checks

/-- Names of environment variables that begin like this are reserved. -/
def reservedBeginning : String := "GITHUB_"

def isReserved (name : String) : Bool :=
  reservedBeginning.toList.isPrefixOf name.toList

/-- A report when the event of a workflow is not known. -/
def eventDiagnostics (workflow : Workflow) : List Diagnostic :=
  match workflow.event? with
  | none => []
  | some event =>
      if Event.isKnown event.value then []
      else [⟨.unrecognizedEvent event.value, event.span⟩]

/-- A report when the address of an action is not well formed. -/
def addressDiagnostics (action : Action) : List Diagnostic :=
  match action.image? with
  | none => []
  | some address =>
      if Address.isValid address.value then []
      else [⟨.invalidUses, address.span⟩]

/-- A report for each reserved name in the environment of an action. -/
def environmentDiagnostics (action : Action) : List Diagnostic :=
  (action.environment.filter fun entry => isReserved entry.name).map
    fun entry => ⟨.reservedEnvironmentVariable, entry.member.name.span⟩

def values (document : Document) : List Diagnostic :=
  document.workflows.flatMap eventDiagnostics ++
    document.actions.flatMap fun action =>
      addressDiagnostics action ++ environmentDiagnostics action

end Checks
end WorkflowLang
