import WorkflowLang.Document
import WorkflowLang.Diagnostic

/-!
# References to actions

The entries of `resolves` and `needs` name declared actions, each at most once
in a list.
-/

namespace WorkflowLang
namespace Checks

/-- Reports on some entries of a list, when the names `seen` come before them. -/
def referenceDiagnostics (declared seen : List String) :
    List StringValue → List Diagnostic
  | [] => []
  | reference :: others =>
      let name := reference.value
      let unknown :=
        if declared.contains name then []
        else [⟨.actionDoesNotExist name, reference.span⟩]
      let repeated :=
        if seen.contains name then [⟨.duplicateActions name, reference.span⟩]
        else []
      unknown ++ repeated ++
        referenceDiagnostics declared (name :: seen) others

def references (document : Document) : List Diagnostic :=
  let declared := document.actions.map Action.name
  document.blocks.flatMap fun block =>
    referenceDiagnostics declared [] block.references

end Checks
end WorkflowLang
