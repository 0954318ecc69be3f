import WorkflowLang.Editor.Navigation

/-!
# Renaming actions

Renaming replaces the text between the quotes of every string that names an
action: the entries that refer to it and the names of all blocks that declare
it.  A new name that would end its string or its line is refused.
-/

namespace WorkflowLang

/-- The replacement of a piece of the source. -/
structure TextEdit where
  span : Span
  newText : String
  deriving DecidableEq, Inhabited, Repr

/-- A name that can stand between quotes as it is. -/
def isActionName (name : String) : Bool :=
  !name.isEmpty &&
    !name.toList.any fun character =>
      ['"', '\\', '\r', '\n'].contains character

namespace Compilation

/-- The token at a span ends in a quote that is not its opening one. -/
def endsInQuote (compilation : Compilation) (span : Span) : Bool :=
  (compilation.tokens.find? fun token => token.span == span).any fun token =>
    let characters := token.text.toList
    decide (1 < characters.length) && characters.getLast? == some '"'

/-- The text between the quotes of the string at a span; up to the end of the
string when it has no closing quote. -/
def innerSpan (compilation : Compilation) (span : Span) : Span :=
  let start := span.start.right 1
  let column :=
    if compilation.endsInQuote span then span.finish.column - 1
    else span.finish.column
  ⟨start, ⟨span.finish.line, max column start.column⟩⟩

/-- The text to be replaced at a position where an action can be renamed. -/
def renameSpan? (compilation : Compilation) (position : Position) :
    Option Span :=
  match compilation.document.targetAt? position with
  | none => none
  | some target =>
      (compilation.document.symbol? target.name).map fun _ =>
        compilation.innerSpan target.span

/-- The names of all blocks that declare an action. -/
def declarations (compilation : Compilation) (name : String) : List Span :=
  (compilation.document.actions.filter fun action =>
      action.name == name).map
    fun action => action.block.name.span

def rename? (compilation : Compilation) (position : Position)
    (newName : String) : Option (List TextEdit) :=
  if isActionName newName then
    match compilation.symbolAt? position with
    | none => none
    | some symbol =>
        let spans := symbol.references ++ compilation.declarations symbol.name
        some (spans.map fun span => ⟨compilation.innerSpan span, newName⟩)
  else none

end Compilation
end WorkflowLang
