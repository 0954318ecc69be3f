import WorkflowLang.Token.Scan
import WorkflowLang.Tree.Parse
import WorkflowLang.Document.Binding
import WorkflowLang.Checks

/-!
# Compilations

A compilation holds everything there is to know about one text: its tokens, its
tree, the document it means and all diagnostics in the order of discovery.  From
the document it derives an index of the declared actions and the action under a
cursor.
-/

namespace WorkflowLang

/-- Where an action is declared, and the entries that refer to it. -/
structure ActionSymbol where
  name : String
  definition : Span
  references : List Span
  deriving DecidableEq, Inhabited, Repr

/-- The name of an action as a string of the text. -/
structure ActionTarget where
  name : String
  span : Span
  deriving DecidableEq, Inhabited, Repr

namespace Document

/-- All entries that refer to actions, block by block. -/
def references (document : Document) : List StringValue :=
  document.blocks.flatMap DocumentBlock.references

def referencesTo (document : Document) (name : String) : List Span :=
  (document.references.filter fun entry => entry.value == name).map
    StringValue.span

/-- The place where an action is first declared. -/
def definition? (document : Document) (name : String) : Option Span :=
  (document.actions.find? fun action => action.name == name).map
    fun action => action.block.name.span

/-- The distinct names of actions, by code points. -/
def actionNames (document : Document) : List String :=
  (document.actions.map Action.name).eraseDups.mergeSort
    fun first second => !decide (second < first)

/-- What is known of a name, if it is the name of an action. -/
def symbol? (document : Document) (name : String) : Option ActionSymbol :=
  (document.definition? name).map fun definition =>
    ⟨name, definition, document.referencesTo name⟩

def symbols (document : Document) : List ActionSymbol :=
  document.actionNames.filterMap document.symbol?

end Document

namespace DocumentBlock

/-- The name a block declares for an action, if it is there and touches a
position. -/
def declaredTarget? (block : DocumentBlock) (position : Position) :
    Option ActionTarget :=
  match block with
  | .workflow _ => none
  | .action declared =>
      let name := declared.block.name
      if name.span.Contains position ∧ name.isMissing = false then
        some ⟨declared.name, name.span⟩
      else none

def referencedTarget? (block : DocumentBlock) (position : Position) :
    Option ActionTarget :=
  (block.references.find? fun entry => decide (entry.span.Contains position)).map
    fun entry => ⟨entry.value, entry.span⟩

end DocumentBlock

/-- The action name at a position.  Only the first block that touches the
position is looked at. -/
def Document.targetAt? (document : Document) (position : Position) :
    Option ActionTarget :=
  match document.blocks.find? fun block =>
      decide (block.block.span.Contains position) with
  | none => none
  | some block =>
      match block.declaredTarget? position with
      | some target => some target
      | none => block.referencedTarget? position

/-- Everything known about one text. -/
structure Compilation where
  text : String
  tokens : List Token
  tree : SyntaxTree
  document : Document
  diagnostics : List Diagnostic
  deriving DecidableEq, Inhabited, Repr

namespace Compilation

def ofText (text : String) : Compilation :=
  let scan := Scan.ofText text
  let parse := Parse.ofTokens scan.tokens
  let document := Document.ofTree parse.tree
  { text := text
    tokens := scan.tokens
    tree := parse.tree
    document := document
    diagnostics :=
      scan.diagnostics ++ parse.diagnostics ++
        parse.tree.bindingDiagnostics ++ document.checkDiagnostics }

/-- Parts of the text may be missing from the tree. -/
def hasSyntaxErrors (compilation : Compilation) : Bool :=
  compilation.diagnostics.any fun diagnostic =>
    diagnostic.problem.isSyntaxError

/-- The diagnostics by their start; of those that start together the one
discovered first comes first. -/
def sortedDiagnostics (compilation : Compilation) : List Diagnostic :=
  compilation.diagnostics.mergeSort fun first second =>
    decide (first.span.start ≤ second.span.start)

end Compilation
end WorkflowLang
