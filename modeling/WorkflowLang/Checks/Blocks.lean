import WorkflowLang.Document
import WorkflowLang.Diagnostic

/-!
# Names of blocks

Workflows and actions share one name space.  A block whose name is taken is
reported at its name and otherwise passed over; of the remaining actions the
first one beyond the limit is reported.
-/

namespace WorkflowLang
namespace Checks

/-- Reports on some blocks, when the names `seen` are taken, `count` actions
have been counted, and the limit has or has not been reported before. -/
def blockDiagnostics (isNoticed : Bool) (seen : List String) (count : Nat) :
    List DocumentBlock → List Diagnostic
  | [] => []
  | .workflow declared :: others =>
      if seen.contains declared.name then
        ⟨.duplicateBlock declared.name, declared.block.name.span⟩ ::
          blockDiagnostics isNoticed seen count others
      else blockDiagnostics isNoticed (declared.name :: seen) count others
  | .action declared :: others =>
      if seen.contains declared.name then
        ⟨.duplicateBlock declared.name, declared.block.name.span⟩ ::
          blockDiagnostics isNoticed seen count others
      else if maximumActions < count + 1 ∧ isNoticed = false then
        ⟨.tooManyActions, declared.block.name.span⟩ ::
          blockDiagnostics true (declared.name :: seen) (count + 1) others
      else
        blockDiagnostics isNoticed (declared.name :: seen) (count + 1) others

def blocks (isNoticed : Bool) (document : Document) : List Diagnostic :=
  blockDiagnostics isNoticed [] 0 document.blocks

end Checks
end WorkflowLang
