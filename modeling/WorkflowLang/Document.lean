import WorkflowLang.Tree
import WorkflowLang.Text.Quoted

/-!
# Documents

A document is what a syntax tree means: at most one version, workflows and
actions, with their properties sorted into slots.  Every value keeps the piece
of the tree it comes from, which gives diagnostics and editor features their
places.
-/

namespace WorkflowLang

/-- A string without its quotes, and the token it comes from. -/
structure StringValue where
  value : String
  token : Token
  deriving DecidableEq, Inhabited, Repr

namespace StringValue

def span (string : StringValue) : Span := string.token.span

/-- The string a token holds, unless it is a stand-in. -/
def ofToken? (token : Token) : Option StringValue :=
  if token.isMissing then none
  else some ⟨Text.unquote token.text, token⟩

end StringValue

/-- An entry of an `env` object. -/
structure EnvironmentVariable where
  name : String
  value : StringValue
  member : ObjectMember
  deriving DecidableEq, Inhabited, Repr

/-- The value of a property together with the property that defines it. -/
structure Definition (α : Type) where
  value : α
  property : Property
  deriving DecidableEq, Inhabited, Repr

namespace Definition

def span {α : Type} (definition : Definition α) : Span :=
  definition.property.span

/-- The entries of a list that may be undefined. -/
def entries {α : Type} : Option (Definition (List α)) → List α
  | some definition => definition.value
  | none => []

end Definition

structure DocumentVersion where
  value : Nat
  statement : VersionStatement
  deriving DecidableEq, Inhabited, Repr

/-- A workflow starts actions when an event arrives. -/
structure Workflow where
  name : String
  on : Option (Definition (Option StringValue))
  resolves : Option (Definition (List StringValue))
  block : Block
  deriving DecidableEq, Inhabited, Repr

/-- An action runs after the actions it needs. -/
structure Action where
  name : String
  uses : Option (Definition (Option StringValue))
  needs : Option (Definition (List StringValue))
  runs : Option (Definition (List StringValue))
  args : Option (Definition (List StringValue))
  env : Option (Definition (List EnvironmentVariable))
  secrets : Option (Definition (List StringValue))
  block : Block
  deriving DecidableEq, Inhabited, Repr

namespace Workflow

/-- The event that starts a workflow, if it is given as a string. -/
def event? (workflow : Workflow) : Option StringValue :=
  workflow.on.bind fun definition => definition.value

def references (workflow : Workflow) : List StringValue :=
  Definition.entries workflow.resolves

end Workflow

namespace Action

/-- What an action runs, if it is given as a string. -/
def image? (action : Action) : Option StringValue :=
  action.uses.bind fun definition => definition.value

def references (action : Action) : List StringValue :=
  Definition.entries action.needs

def secretNames (action : Action) : List StringValue :=
  Definition.entries action.secrets

def environment (action : Action) : List EnvironmentVariable :=
  Definition.entries action.env

end Action

inductive DocumentBlock where
  | workflow (workflow : Workflow)
  | action (action : Action)
  deriving DecidableEq, Inhabited, Repr

namespace DocumentBlock

def name : DocumentBlock → String
  | .workflow declared => declared.name
  | .action declared => declared.name

/-- The block of the tree a workflow or action comes from. -/
def block : DocumentBlock → Block
  | .workflow declared => declared.block
  | .action declared => declared.block

def references : DocumentBlock → List StringValue
  | .workflow declared => declared.references
  | .action declared => declared.references

end DocumentBlock

structure Document where
  version : Option DocumentVersion
  workflows : List Workflow
  actions : List Action
  deriving DecidableEq, Inhabited, Repr

namespace Document

/-- Workflows and actions by the place of their keywords; of two at one place
a workflow comes first. -/
def blocks (document : Document) : List DocumentBlock :=
  let grouped :=
    document.workflows.map DocumentBlock.workflow ++
      document.actions.map DocumentBlock.action
  grouped.mergeSort fun first second =>
    decide (first.block.keyword.span.start ≤ second.block.keyword.span.start)

end Document
end WorkflowLang
