import WorkflowLang.Proofs.Layout.Plan

/-!
# Pieces of a tree

A layout writes some tokens of a tree on one line each: a version statement, the
beginning of a block or of a property, an item, a member, a closing bracket.  A plan
has a line of tokens for each of these pieces
(`Layout.pieces_statementListLines`).
-/

namespace WorkflowLang

/-- Tokens that belong on one line, and how deep this line is. -/
structure Piece where
  depth : Nat
  tokens : List Token
  deriving DecidableEq

def ArrayItem.piece (item : ArrayItem) : Piece :=
  ⟨2, item.tokens⟩

def ObjectMember.piece (member : ObjectMember) : Piece :=
  ⟨2, member.tokens⟩

def Property.pieces (property : Property) : List Piece :=
  match property.value with
  | .string value => [⟨1, [property.key, property.equal, value]⟩]
  | .array openBracket items closeBracket =>
      ⟨1, [property.key, property.equal, openBracket]⟩ ::
        items.map ArrayItem.piece ++ [⟨1, [closeBracket]⟩]
  | .object openBracket members closeBracket =>
      ⟨1, [property.key, property.equal, openBracket]⟩ ::
        members.map ObjectMember.piece ++ [⟨1, [closeBracket]⟩]

def Block.pieces (block : Block) : List Piece :=
  ⟨0, [block.keyword, block.name, block.openBracket]⟩ ::
    block.properties.flatMap Property.pieces ++ [⟨0, [block.closeBracket]⟩]

def Statement.pieces : Statement → List Piece
  | .version statement => [⟨0, statement.tokens⟩]
  | .block body => body.pieces

/-- What is written on one line, for all statements of a tree. -/
def SyntaxTree.pieces (tree : SyntaxTree) : List Piece :=
  tree.statements.flatMap Statement.pieces

namespace Layout

def PlannedLine.piece? : PlannedLine → Option Piece
  | .blank => none
  | .tokens depth _ _ planned => some ⟨depth, planned⟩

open PlannedLine (piece?)

theorem pieces_cons (depth commentDepth width : Nat) (planned : List Token)
    (others : List PlannedLine) :
    (.tokens depth commentDepth width planned :: others).filterMap piece? =
      ⟨depth, planned⟩ :: others.filterMap piece? := rfl

theorem pieces_propertyLines (width : Nat) (property : Property) :
    (propertyLines width property).filterMap piece? = property.pieces := by
  obtain ⟨key, equal, value⟩ := property
  cases value with
  | string value => rfl
  | array openBracket items closeBracket =>
      simp [propertyLines, itemLines, Property.pieces, ArrayItem.piece,
        List.filterMap_map, Function.comp_def, piece?]
  | object openBracket members closeBracket =>
      simp [propertyLines, memberLines, Property.pieces, ObjectMember.piece,
        List.filterMap_map, Function.comp_def, piece?]

theorem pieces_laterPropertyLines (width : Nat) (previous : Property)
    (properties : List Property) :
    (laterPropertyLines width previous properties).filterMap piece? =
      properties.flatMap Property.pieces := by
  induction properties generalizing previous with
  | nil => rfl
  | cons property others inductionHypothesis =>
      have gap : (if previous.value.isList || property.value.isList then
          [PlannedLine.blank] else []).filterMap piece? = [] := by
        split <;> rfl
      simp only [laterPropertyLines, List.filterMap_append, List.flatMap_cons,
        gap, pieces_propertyLines, inductionHypothesis, List.nil_append]

theorem pieces_statementLines (statement : Statement) :
    (statementLines statement).filterMap piece? = statement.pieces := by
  cases statement with
  | version version => rfl
  | block block =>
      have body : (bodyLines block.properties).filterMap piece? =
          block.properties.flatMap Property.pieces := by
        cases block.properties with
        | nil => rfl
        | cons first others =>
            simp only [bodyLines, List.filterMap_append, List.flatMap_cons,
              pieces_propertyLines, pieces_laterPropertyLines]
      rw [statementLines, List.filterMap_append, pieces_cons, pieces_cons, body]
      rfl

/-- The lines of a plan are the pieces of the statements. -/
theorem pieces_statementListLines (statements : List Statement) :
    (statementListLines statements).filterMap piece? =
      statements.flatMap Statement.pieces := by
  fun_induction statementListLines statements with
  | case1 => rfl
  | case2 statement =>
      rw [pieces_statementLines, List.flatMap_singleton]
  | case3 statement others _ inductionHypothesis =>
      rw [List.filterMap_append, pieces_statementLines,
        List.filterMap_cons_none rfl, inductionHypothesis, List.flatMap_cons]

/-- What holds of the pieces of a tree holds of its planned lines. -/
theorem PlannedLine.piece?_mem {statements : List Statement}
    {depth commentDepth width : Nat} {planned : List Token}
    (member : .tokens depth commentDepth width planned ∈
      statementListLines statements) :
    ⟨depth, planned⟩ ∈ statements.flatMap Statement.pieces := by
  rw [← pieces_statementListLines]
  exact List.mem_filterMap.mpr ⟨_, member, rfl⟩

end Layout

end WorkflowLang
