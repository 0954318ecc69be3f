import WorkflowLang.Document
import WorkflowLang.Diagnostic

/-!
# Secrets

A list of secrets names each secret at most once, and a document uses a limited
number of distinct secrets.  The entry that first goes beyond the limit is
reported.
-/

namespace WorkflowLang
namespace Checks

/-- Reports on some entries of a list.  The document has used the secrets
`known`, this list the secrets `seen`. -/
def secretDiagnostics (isNoticed : Bool) (known seen : List String) :
    List StringValue → List Diagnostic
  | [] => []
  | secret :: others =>
      let name := secret.value
      let repeated :=
        if seen.contains name then [⟨.duplicateSecrets name, secret.span⟩]
        else []
      let isExcess :=
        !known.contains name && maximumSecrets < known.length + 1 && !isNoticed
      let excess := if isExcess then [⟨.tooManySecrets, secret.span⟩] else []
      repeated ++ excess ++
        secretDiagnostics (isNoticed || isExcess) (known.insert name)
          (name :: seen) others

/-- The limit is among some reports. -/
def noticesSecrets (diagnostics : List Diagnostic) : Bool :=
  diagnostics.any fun diagnostic => diagnostic.problem == .tooManySecrets

/-- Reports on the lists of some actions, when the document has used the secrets
`known` before. -/
def secretListDiagnostics (isNoticed : Bool) (known : List String) :
    List (List StringValue) → List Diagnostic
  | [] => []
  | secrets :: others =>
      let found := secretDiagnostics isNoticed known [] secrets
      let used :=
        secrets.foldl (fun names secret => names.insert secret.value) known
      found ++
        secretListDiagnostics (isNoticed || noticesSecrets found) used others

def secrets (isNoticed : Bool) (document : Document) : List Diagnostic :=
  secretListDiagnostics isNoticed []
    (document.actions.map Action.secretNames)

end Checks
end WorkflowLang
