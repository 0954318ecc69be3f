import WorkflowLang.Layout
import WorkflowLang.Editor.Rename

/-!
# Formatting in an editor

Formatting a document that is not yet in canonical layout is one edit that
replaces its whole text.
-/

namespace WorkflowLang

structure IndentOptions where
  tabSize : Nat
  insertSpaces : Bool
  deriving DecidableEq, Inhabited, Repr

def IndentOptions.indent (options : IndentOptions) : String :=
  if options.insertSpaces then
    String.ofList (List.replicate options.tabSize ' ')
  else "\t"

/-- The edits that lay a document out anew; nothing when it has syntax errors or
needs no change. -/
def Compilation.formattingEdits? (compilation : Compilation)
    (options : IndentOptions) : Option (List TextEdit) :=
  match compilation.format? options.indent with
  | none => none
  | some formatted =>
      if formatted = compilation.text then none
      else
        let whole : Span :=
          ⟨Position.origin, Text.endPosition compilation.text.toList⟩
        some [⟨whole, formatted⟩]

end WorkflowLang
