import WorkflowLang.Compilation

/-!
# Completion

Inside the strings of `needs` and `resolves` the declared actions are offered,
inside the string of `on` the webhook events, and between the properties of a
block the properties it may define.  Nothing is offered in front of a block's
body or in other values.
-/

namespace WorkflowLang

/-- Something an editor offers to insert. -/
inductive Completion where
  | action (name : String)
  | event (name : String)
  | property (key : TokenKind)
  deriving DecidableEq, Inhabited, Repr

namespace Completion

def label : Completion → String
  | .action name => name
  | .event name => name
  | .property key => key.description

def detail : Completion → String
  | .action name => "Insert the action '" ++ name ++ "'."
  | .event name => "Insert the event '" ++ name ++ "'."
  | .property key => "Insert a new '" ++ key.description ++ "' property."

/-- The text to insert where it is not the label. -/
def insertText? : Completion → Option String
  | .action _ => none
  | .event _ => none
  | .property key => some (key.description ++ " = ")

end Completion

namespace PropertyValue

/-- The string tokens of a value that a cursor can stand in. -/
def stringTokens : PropertyValue → List Token
  | .string value => [value].filter fun token => token.kind == .string
  | .array _ items _ =>
      (items.map ArrayItem.value).filter fun token => token.kind == .string
  | .object _ _ _ => []

end PropertyValue

namespace Compilation

def propertyCompletions (compilation : Compilation) (property : Property)
    (position : Position) : List Completion :=
  if property.value.stringTokens.any fun token =>
      decide (token.span.Contains position) then
    match property.key.kind with
    | .needs => compilation.document.actionNames.map Completion.action
    | .resolves => compilation.document.actionNames.map Completion.action
    | .on => Event.webhooks.map Completion.event
    | _ => []
  else []

def blockCompletions (compilation : Compilation) (block : Block)
    (position : Position) : List Completion :=
  let isBeforeBody :=
    !block.openBracket.isMissing &&
      !decide (block.openBracket.span.finish ≤ position)
  if isBeforeBody then []
  else
    match block.properties.find? fun property =>
        decide (property.span.Contains position) with
    | some property => compilation.propertyCompletions property position
    | none => block.kind.properties.map Completion.property

/-- What is offered at a position.  Only the first block that touches the
position counts. -/
def completions (compilation : Compilation) (position : Position) :
    List Completion :=
  match compilation.tree.blocks.find? fun block =>
      decide (block.span.Contains position) with
  | none => []
  | some block => compilation.blockCompletions block position

end Compilation
end WorkflowLang
