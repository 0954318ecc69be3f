import WorkflowLang.Compilation
import WorkflowLang.Editor.KeywordDoc

/-!
# Hover texts

A keyword shows its documentation; the name of a declared action shows what the
action uses and needs.  Where a keyword and a name touch, the keyword wins.
-/

namespace WorkflowLang

/-- A Markdown text for a piece of the source. -/
structure Hover where
  markdown : String
  span : Span
  deriving DecidableEq, Inhabited, Repr

def KeywordDoc.markdown (doc : KeywordDoc) : String :=
  "**" ++ doc.name ++ "**\n\n" ++ doc.description ++ "\n\n```hcl\n" ++
    doc.sample ++ "\n```"

def inlineCode (text : String) : String :=
  "`" ++ text ++ "`"

def Action.markdown (action : Action) : String :=
  let uses :=
    match action.image? with
    | some address => "\n\nuses " ++ inlineCode address.value
    | none => ""
  let needs :=
    if action.references.isEmpty then ""
    else
      "\n\nneeds " ++
        ", ".intercalate
          (action.references.map fun entry => inlineCode entry.value)
  "**action** " ++ inlineCode action.name ++ uses ++ needs

namespace Compilation

def keywordAt? (compilation : Compilation) (position : Position) :
    Option Token :=
  compilation.tokens.find? fun token =>
    token.kind.isKeyword && decide (token.span.Contains position)

def actionHover? (compilation : Compilation) (position : Position) :
    Option Hover :=
  match compilation.document.targetAt? position with
  | none => none
  | some target =>
      (compilation.document.actions.find? fun action =>
          action.name == target.name).map
        fun action => ⟨action.markdown, target.span⟩

def hover? (compilation : Compilation) (position : Position) : Option Hover :=
  match compilation.keywordAt? position with
  | some token =>
      (KeywordDoc.ofKind? token.kind).map fun doc =>
        ⟨doc.markdown, token.span⟩
  | none => compilation.actionHover? position

end Compilation
end WorkflowLang
