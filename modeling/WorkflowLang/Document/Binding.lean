import WorkflowLang.Document
import WorkflowLang.Diagnostic
import WorkflowLang.Text.Numeral

/-!
# From trees to documents

Binding never fails.  A slot is filled from the first property with its key, an
`env` object keeps the first member of each name, and the first version counts.
Whatever is repeated, misplaced or of the wrong shape is reported and left out.
Tokens that are missing have been reported already, so binding passes over them
in silence.

Values and reports are computed side by side: the functions into documents say
what a tree means, the functions into diagnostics say what is wrong with it.
-/

namespace WorkflowLang

namespace PropertyValue

def string? : PropertyValue → Option StringValue
  | .string value => StringValue.ofToken? value
  | .array _ _ _ => none
  | .object _ _ _ => none

/-- The strings of a value that is one string or an array of them. -/
def strings : PropertyValue → List StringValue
  | .string value => (StringValue.ofToken? value).toList
  | .array _ items _ =>
      items.filterMap fun item => StringValue.ofToken? item.value
  | .object _ _ _ => []

end PropertyValue

namespace EnvironmentVariable

/-- The variable a member defines, unless its value or its name is missing. -/
def ofMember? (member : ObjectMember) : Option EnvironmentVariable :=
  match StringValue.ofToken? member.value with
  | none => none
  | some value =>
      if member.name.isMissing then none
      else some ⟨member.name.text, value, member⟩

/-- The first variable of each name that is not among `seen`. -/
def firstOfName (seen : List String) :
    List EnvironmentVariable → List EnvironmentVariable
  | [] => []
  | entry :: others =>
      if seen.contains entry.name then firstOfName seen others
      else entry :: firstOfName (entry.name :: seen) others

/-- A report for each variable whose name is among `seen` or came before. -/
def duplicateDiagnostics (seen : List String) :
    List EnvironmentVariable → List Diagnostic
  | [] => []
  | entry :: others =>
      if seen.contains entry.name then
        ⟨.duplicateKey entry.name, entry.member.name.span⟩ ::
          duplicateDiagnostics seen others
      else duplicateDiagnostics (entry.name :: seen) others

end EnvironmentVariable

namespace PropertyValue

/-- The members of a value that is an object, whatever their names. -/
def members : PropertyValue → List EnvironmentVariable
  | .object _ members _ => members.filterMap EnvironmentVariable.ofMember?
  | .string _ => []
  | .array _ _ _ => []

def environment (value : PropertyValue) : List EnvironmentVariable :=
  EnvironmentVariable.firstOfName [] value.members

end PropertyValue

namespace Property

/-- What is wrong with the value of a property, given its key. -/
def valueDiagnostics (property : Property) : List Diagnostic :=
  let key := property.key
  if key.kind = .on ∨ key.kind = .uses then
    match property.value with
    | .string _ => []
    | _ => [⟨.valueIsNotString, key.span⟩]
  else if key.kind = .env then
    match property.value with
    | .object _ _ _ =>
        EnvironmentVariable.duplicateDiagnostics [] property.value.members
    | _ => [⟨.valueIsNotObject, key.span⟩]
  else
    match property.value with
    | .object _ _ _ => [⟨.valueIsNotStringOrArray, key.span⟩]
    | _ => []

end Property

namespace Block

def property? (block : Block) (key : TokenKind) : Option Property :=
  block.properties.find? fun property => property.key.kind == key

/-- The slot of a key, filled by the first property that has it. -/
def slot {α : Type} (block : Block) (key : TokenKind)
    (value : PropertyValue → α) : Option (Definition α) :=
  (block.property? key).map fun property => ⟨value property.value, property⟩

def toWorkflow (block : Block) : Workflow where
  name := Text.unquote block.name.text
  on := block.slot .on PropertyValue.string?
  resolves := block.slot .resolves PropertyValue.strings
  block := block

def toAction (block : Block) : Action where
  name := Text.unquote block.name.text
  uses := block.slot .uses PropertyValue.string?
  needs := block.slot .needs PropertyValue.strings
  runs := block.slot .runs PropertyValue.strings
  args := block.slot .args PropertyValue.strings
  env := block.slot .env PropertyValue.environment
  secrets := block.slot .secrets PropertyValue.strings
  block := block

/-- What is wrong with some properties of a block, when properties with the keys
`seen` come before them. -/
def propertyDiagnostics (kind : BlockKind) (seen : List TokenKind) :
    List Property → List Diagnostic
  | [] => []
  | property :: others =>
      let key := property.key
      if !kind.properties.contains key.kind then
        ⟨.invalidProperty key.text kind, key.span⟩ ::
          propertyDiagnostics kind seen others
      else if seen.contains key.kind then
        ⟨.propertyAlreadyDefined key.text, key.span⟩ ::
          propertyDiagnostics kind seen others
      else
        property.valueDiagnostics ++
          propertyDiagnostics kind (key.kind :: seen) others

/-- A report when the property a block has to define is not there. -/
def requiredDiagnostics (block : Block) : List Diagnostic :=
  if (block.property? block.kind.requiredProperty).isNone then
    [⟨.propertyMustBeDefined block.kind.requiredProperty block.kind,
      block.keyword.span⟩]
  else []

def diagnostics (block : Block) : List Diagnostic :=
  propertyDiagnostics block.kind [] block.properties ++
    block.requiredDiagnostics

/-- What is wrong with some blocks, with one report before the first that
stands on an earlier line than a version. -/
def listDiagnostics (version : Option VersionStatement) :
    List Block → List Diagnostic
  | [] => []
  | block :: others =>
      match version with
      | none => block.diagnostics ++ listDiagnostics none others
      | some statement =>
          let keyword := statement.keyword
          if block.keyword.span.start.line < keyword.span.start.line then
            ⟨.versionAfterBlock, keyword.span⟩ ::
              (block.diagnostics ++ listDiagnostics none others)
          else block.diagnostics ++ listDiagnostics version others

end Block

namespace VersionStatement

/-- The version a numeral names, if it is understood. -/
def number? (text : String) : Option Nat :=
  (Text.numeral? UInt32.size text).filter fun value => value ≤ maximumVersion

/-- The version a statement declares; zero when it is not understood. -/
def value (statement : VersionStatement) : Nat :=
  if statement.integer.isMissing then 0
  else (number? statement.integer.text).getD 0

def valueDiagnostics (statement : VersionStatement) : List Diagnostic :=
  let integer := statement.integer
  if integer.isMissing then []
  else
    match number? integer.text with
    | some _ => []
    | none => [⟨.unrecognizedVersion integer.text, integer.span⟩]

/-- What is wrong with the versions of a document: the first one has to be
understood, and there should be no other. -/
def listDiagnostics : List VersionStatement → List Diagnostic
  | [] => []
  | first :: others =>
      first.valueDiagnostics ++
        others.map fun statement =>
          ⟨.multipleVersions, statement.keyword.span⟩

end VersionStatement

def Document.ofTree (tree : SyntaxTree) : Document where
  version :=
    tree.versions.head?.map fun statement => ⟨statement.value, statement⟩
  workflows :=
    (tree.blocks.filter fun block => block.kind == .workflow).map
      Block.toWorkflow
  actions :=
    (tree.blocks.filter fun block => block.kind == .action).map
      Block.toAction

/-- What is wrong with a tree on its way to a document. -/
def SyntaxTree.bindingDiagnostics (tree : SyntaxTree) : List Diagnostic :=
  VersionStatement.listDiagnostics tree.versions ++
    Block.listDiagnostics tree.versions.head? tree.blocks

end WorkflowLang
