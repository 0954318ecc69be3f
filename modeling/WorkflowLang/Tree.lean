import WorkflowLang.Token

/-!
# Syntax trees

The tree of a document keeps every token it was built from, including the
stand-ins for tokens that recovery could not find.  The span of a node is the
least span that covers its own tokens and its children.  `tokens` lists the
tokens of a node in reading order.
-/

namespace WorkflowLang

/-- `version = <integer>` -/
structure VersionStatement where
  keyword : Token
  equal : Token
  integer : Token
  deriving DecidableEq, Inhabited, Repr

namespace VersionStatement

def tokens (version : VersionStatement) : List Token :=
  [version.keyword, version.equal, version.integer]

def span (version : VersionStatement) : Span :=
  Token.coverSpan version.tokens

end VersionStatement

/-- A string in an array, with the comma behind it if there is one. -/
structure ArrayItem where
  value : Token
  comma : Option Token
  deriving DecidableEq, Inhabited, Repr

namespace ArrayItem

def tokens (item : ArrayItem) : List Token :=
  item.value :: item.comma.toList

def span (item : ArrayItem) : Span :=
  Token.coverSpan item.tokens

end ArrayItem

/-- `NAME = "value"` in an object, with the comma behind it if there is one. -/
structure ObjectMember where
  name : Token
  equal : Token
  value : Token
  comma : Option Token
  deriving DecidableEq, Inhabited, Repr

namespace ObjectMember

def tokens (member : ObjectMember) : List Token :=
  [member.name, member.equal, member.value] ++ member.comma.toList

def span (member : ObjectMember) : Span :=
  Token.coverSpan member.tokens

end ObjectMember

/-- The three shapes of a property's value. -/
inductive PropertyValue where
  /-- A string, or a stand-in when no value was found. -/
  | string (value : Token)
  | array (openBracket : Token) (items : List ArrayItem)
      (closeBracket : Token)
  | object (openBracket : Token) (members : List ObjectMember)
      (closeBracket : Token)
  deriving DecidableEq, Inhabited, Repr

namespace PropertyValue

def tokens : PropertyValue → List Token
  | .string value => [value]
  | .array openBracket items closeBracket =>
      openBracket :: items.flatMap ArrayItem.tokens ++ [closeBracket]
  | .object openBracket members closeBracket =>
      openBracket :: members.flatMap ObjectMember.tokens ++ [closeBracket]

/-- The spans of a value's own tokens and of its children. -/
def spans : PropertyValue → List Span
  | .string value => [value.span]
  | .array openBracket items closeBracket =>
      [openBracket.span, closeBracket.span] ++ items.map ArrayItem.span
  | .object openBracket members closeBracket =>
      [openBracket.span, closeBracket.span] ++ members.map ObjectMember.span

/-- Arrays and objects are laid out over several lines. -/
def isList : PropertyValue → Bool
  | .string _ => false
  | .array _ _ _ => true
  | .object _ _ _ => true

end PropertyValue

/-- `key = value` in a block. -/
structure Property where
  key : Token
  equal : Token
  value : PropertyValue
  deriving DecidableEq, Inhabited, Repr

namespace Property

def tokens (property : Property) : List Token :=
  [property.key, property.equal] ++ property.value.tokens

def span (property : Property) : Span :=
  Span.cover
    ([property.key.span, property.equal.span] ++ property.value.spans)

end Property

/-- `workflow "name" { … }` or `action "name" { … }` -/
structure Block where
  kind : BlockKind
  keyword : Token
  name : Token
  openBracket : Token
  properties : List Property
  closeBracket : Token
  deriving DecidableEq, Inhabited, Repr

namespace Block

def tokens (block : Block) : List Token :=
  [block.keyword, block.name, block.openBracket] ++
    block.properties.flatMap Property.tokens ++ [block.closeBracket]

def span (block : Block) : Span :=
  Span.cover
    ([block.keyword.span, block.name.span, block.openBracket.span,
        block.closeBracket.span] ++ block.properties.map Property.span)

end Block

inductive Statement where
  | version (version : VersionStatement)
  | block (block : Block)
  deriving DecidableEq, Inhabited, Repr

namespace Statement

def tokens : Statement → List Token
  | .version statement => statement.tokens
  | .block body => body.tokens

def span : Statement → Span
  | .version statement => statement.span
  | .block body => body.span

def version? : Statement → Option VersionStatement
  | .version statement => some statement
  | .block _ => none

def block? : Statement → Option Block
  | .version _ => none
  | .block body => some body

end Statement

/-- The statements of a document, in the order they were read. -/
structure SyntaxTree where
  statements : List Statement
  deriving DecidableEq, Inhabited, Repr

namespace SyntaxTree

def tokens (tree : SyntaxTree) : List Token :=
  tree.statements.flatMap Statement.tokens

def versions (tree : SyntaxTree) : List VersionStatement :=
  tree.statements.filterMap Statement.version?

def blocks (tree : SyntaxTree) : List Block :=
  tree.statements.filterMap Statement.block?

/-- The statements by the start of their spans; of two that start together a
version comes first. -/
def sortedStatements (tree : SyntaxTree) : List Statement :=
  let grouped :=
    tree.versions.map Statement.version ++ tree.blocks.map Statement.block
  grouped.mergeSort fun first second =>
    decide (first.span.start ≤ second.span.start)

end SyntaxTree
end WorkflowLang
