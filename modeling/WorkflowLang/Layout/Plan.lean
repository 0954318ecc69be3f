import WorkflowLang.Tree

/-!
# The lines of a canonical layout

A plan says which tokens of a tree share a line, how deep the line is indented,
how deep the comments before it are, and how wide its first token is made so
that equal signs stand in one column.  Statements are separated by a blank line,
and so are two properties of a block when one of them is an array or an object.
-/

namespace WorkflowLang
namespace Layout

inductive PlannedLine where
  | blank
  | tokens (depth commentDepth width : Nat) (tokens : List Token)
  deriving DecidableEq, Inhabited, Repr

/-- The number of characters of the longest of some tokens. -/
def longest (tokens : List Token) : Nat :=
  (tokens.map fun token => token.text.length).foldl max 0

def itemLines (items : List ArrayItem) : List PlannedLine :=
  items.map fun item => .tokens 2 2 0 item.tokens

def memberLines (members : List ObjectMember) : List PlannedLine :=
  let width := longest (members.map ObjectMember.name)
  members.map fun member => .tokens 2 2 width member.tokens

/-- The lines of a property whose key is made `width` characters wide. -/
def propertyLines (width : Nat) (property : Property) : List PlannedLine :=
  let beginning := [property.key, property.equal]
  match property.value with
  | .string value => [.tokens 1 1 width (beginning ++ [value])]
  | .array openBracket items closeBracket =>
      .tokens 1 1 width (beginning ++ [openBracket]) ::
        itemLines items ++ [.tokens 1 2 0 [closeBracket]]
  | .object openBracket members closeBracket =>
      .tokens 1 1 width (beginning ++ [openBracket]) ::
        memberLines members ++ [.tokens 1 2 0 [closeBracket]]

/-- The lines of some properties behind another one. -/
def laterPropertyLines (width : Nat) (previous : Property) :
    List Property → List PlannedLine
  | [] => []
  | property :: others =>
      let gap : List PlannedLine :=
        if previous.value.isList || property.value.isList then [.blank] else []
      gap ++ propertyLines width property ++
        laterPropertyLines width property others

def bodyLines (properties : List Property) : List PlannedLine :=
  let width := longest (properties.map Property.key)
  match properties with
  | [] => []
  | first :: others =>
      propertyLines width first ++ laterPropertyLines width first others

def statementLines : Statement → List PlannedLine
  | .version version => [.tokens 0 0 0 version.tokens]
  | .block block =>
      .tokens 0 0 0 [block.keyword, block.name, block.openBracket] ::
        bodyLines block.properties ++ [.tokens 0 1 0 [block.closeBracket]]

/-- The lines of some statements, with a blank line between any two. -/
def statementListLines : List Statement → List PlannedLine
  | [] => []
  | [statement] => statementLines statement
  | statement :: others =>
      statementLines statement ++ .blank :: statementListLines others

def treeLines (tree : SyntaxTree) : List PlannedLine :=
  statementListLines tree.sortedStatements

end Layout
end WorkflowLang
