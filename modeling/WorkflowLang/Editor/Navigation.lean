import WorkflowLang.Compilation

/-!
# Definitions and references

From any string that names a declared action, an editor can go to the first
block that declares it and list the entries that refer to it.
-/

namespace WorkflowLang
namespace Compilation

def symbolAt? (compilation : Compilation) (position : Position) :
    Option ActionSymbol :=
  (compilation.document.targetAt? position).bind fun target =>
    compilation.document.symbol? target.name

/-- The place where the action named at a position is declared. -/
def definitionAt? (compilation : Compilation) (position : Position) :
    Option Span :=
  (compilation.symbolAt? position).map ActionSymbol.definition

/-- The places that refer to the action named at a position; with the
declaration first if it is wanted. -/
def referencesAt (compilation : Compilation) (position : Position)
    (includeDeclaration : Bool) : List Span :=
  match compilation.symbolAt? position with
  | none => []
  | some symbol =>
      if includeDeclaration then symbol.definition :: symbol.references
      else symbol.references

end Compilation
end WorkflowLang
