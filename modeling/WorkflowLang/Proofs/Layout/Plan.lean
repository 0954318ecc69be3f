import WorkflowLang.Layout.Plan
import WorkflowLang.Proofs.Document.Mapping

/-!
# What a plan contains

A plan holds the tokens of its tree in reading order, each once, and no line of
tokens is empty.  It depends on the places of tokens only through the order of
the statements.
-/

namespace WorkflowLang
namespace Layout

namespace PlannedLine

def contents : PlannedLine → List Token
  | .blank => []
  | .tokens _ _ _ planned => planned

def mapTokens (view : Token → Token) : PlannedLine → PlannedLine
  | .blank => .blank
  | .tokens depth commentDepth width planned =>
      .tokens depth commentDepth width (planned.map view)

/-- A line of tokens has one. -/
def IsFilled : PlannedLine → Prop
  | .blank => True
  | .tokens _ _ _ planned => planned ≠ []

@[simp] theorem contents_blank : blank.contents = [] := rfl

@[simp] theorem contents_tokens (depth commentDepth width : Nat)
    (planned : List Token) :
    (tokens depth commentDepth width planned).contents = planned := rfl

end PlannedLine

open PlannedLine (contents IsFilled)

/-! ## The tokens of a plan -/

theorem contents_itemLines (items : List ArrayItem) :
    (itemLines items).flatMap contents =
      items.flatMap ArrayItem.tokens := by
  simp [itemLines, List.flatMap_map]

theorem contents_memberLines (members : List ObjectMember) :
    (memberLines members).flatMap contents =
      members.flatMap ObjectMember.tokens := by
  simp [memberLines, List.flatMap_map]

theorem contents_propertyLines (width : Nat) (property : Property) :
    (propertyLines width property).flatMap contents = property.tokens := by
  obtain ⟨key, equal, value⟩ := property
  cases value with
  | string value => rfl
  | array openBracket items closeBracket =>
      simp [propertyLines, Property.tokens, PropertyValue.tokens,
        contents_itemLines]
  | object openBracket members closeBracket =>
      simp [propertyLines, Property.tokens, PropertyValue.tokens,
        contents_memberLines]

theorem contents_laterPropertyLines (width : Nat) (previous : Property)
    (properties : List Property) :
    (laterPropertyLines width previous properties).flatMap contents =
      properties.flatMap Property.tokens := by
  induction properties generalizing previous with
  | nil => rfl
  | cons property others inductionHypothesis =>
      have gap : (if previous.value.isList || property.value.isList then
          [PlannedLine.blank] else []).flatMap contents = [] := by
        split <;> rfl
      simp only [laterPropertyLines, List.flatMap_append, List.flatMap_cons,
        gap, contents_propertyLines, inductionHypothesis, List.nil_append]

theorem contents_bodyLines (properties : List Property) :
    (bodyLines properties).flatMap contents =
      properties.flatMap Property.tokens := by
  cases properties with
  | nil => rfl
  | cons first others =>
      simp only [bodyLines, List.flatMap_append, List.flatMap_cons,
        contents_propertyLines, contents_laterPropertyLines]

theorem contents_statementLines (statement : Statement) :
    (statementLines statement).flatMap contents = statement.tokens := by
  cases statement with
  | version version => rfl
  | block block =>
      simp [statementLines, Statement.tokens, Block.tokens,
        contents_bodyLines]

theorem contents_statementListLines (statements : List Statement) :
    (statementListLines statements).flatMap contents =
      statements.flatMap Statement.tokens := by
  fun_induction statementListLines statements with
  | case1 => rfl
  | case2 statement => simp [contents_statementLines]
  | case3 statement others _ inductionHypothesis =>
      simp [contents_statementLines, inductionHypothesis]

/-! ## The lines of a plan -/

theorem isFilled_propertyLines (width : Nat) (property : Property) :
    ∀ line ∈ propertyLines width property, line.IsFilled := by
  obtain ⟨key, equal, value⟩ := property
  cases value with
  | string value => simp [propertyLines, IsFilled]
  | array openBracket items closeBracket =>
      intro line member
      simp only [propertyLines, itemLines, List.mem_append, List.mem_cons,
        List.mem_map, List.not_mem_nil, or_false] at member
      rcases member with (rfl | ⟨item, _, rfl⟩) | rfl
      · simp [IsFilled]
      · simp [IsFilled, ArrayItem.tokens]
      · simp [IsFilled]
  | object openBracket members closeBracket =>
      intro line member
      simp only [propertyLines, memberLines, List.mem_append, List.mem_cons,
        List.mem_map, List.not_mem_nil, or_false] at member
      rcases member with (rfl | ⟨entry, _, rfl⟩) | rfl
      · simp [IsFilled]
      · simp [IsFilled, ObjectMember.tokens]
      · simp [IsFilled]

theorem isFilled_laterPropertyLines (width : Nat) (previous : Property)
    (properties : List Property) :
    ∀ line ∈ laterPropertyLines width previous properties,
      line.IsFilled := by
  induction properties generalizing previous with
  | nil => simp [laterPropertyLines]
  | cons property others inductionHypothesis =>
      intro line member
      rw [laterPropertyLines, List.mem_append, List.mem_append] at member
      rcases member with (isGap | isHere) | isLater
      · split at isGap
        · rw [List.mem_singleton.mp isGap]
          trivial
        · simp at isGap
      · exact isFilled_propertyLines width property line isHere
      · exact inductionHypothesis property line isLater

theorem isFilled_statementLines (statement : Statement) :
    ∀ line ∈ statementLines statement, line.IsFilled := by
  cases statement with
  | version version =>
      simp [statementLines, IsFilled, VersionStatement.tokens]
  | block block =>
      intro line member
      rw [statementLines, List.mem_append, List.mem_cons,
        List.mem_singleton] at member
      rcases member with (rfl | inside) | rfl
      · simp [IsFilled]
      · unfold bodyLines at inside
        split at inside
        · simp at inside
        · rcases List.mem_append.mp inside with isFirst | isLater
          · exact isFilled_propertyLines _ _ line isFirst
          · exact isFilled_laterPropertyLines _ _ _ line isLater
      · simp [IsFilled]

theorem isFilled_statementListLines (statements : List Statement) :
    ∀ line ∈ statementListLines statements, line.IsFilled := by
  fun_induction statementListLines statements with
  | case1 => simp
  | case2 statement => exact isFilled_statementLines statement
  | case3 statement others _ inductionHypothesis =>
      intro line member
      rcases List.mem_append.mp member with isHere | isLater
      · exact isFilled_statementLines statement line isHere
      · rcases List.mem_cons.mp isLater with rfl | isOther
        · trivial
        · exact inductionHypothesis line isOther

/-! ## Plans of changed trees -/

section

variable {view : Token → Token} (keeps : Token.KeepsContent view)

include keeps

theorem longest_map (tokens : List Token) :
    longest (tokens.map view) = longest tokens := by
  simp [longest, Function.comp_def, keeps.text_view]

theorem propertyLines_mapTokens (width : Nat) (property : Property) :
    propertyLines width (property.mapTokens view) =
      (propertyLines width property).map (PlannedLine.mapTokens view) := by
  obtain ⟨key, equal, value⟩ := property
  cases value with
  | string value => rfl
  | array openBracket items closeBracket =>
      simp [propertyLines, Property.mapTokens, PropertyValue.mapTokens,
        itemLines, PlannedLine.mapTokens]
  | object openBracket members closeBracket =>
      have names : (members.map (ObjectMember.mapTokens view)).map
          ObjectMember.name = (members.map ObjectMember.name).map view := by
        simp [ObjectMember.mapTokens]
      simp only [propertyLines, Property.mapTokens, PropertyValue.mapTokens,
        memberLines, names, longest_map keeps]
      simp [PlannedLine.mapTokens]

theorem laterPropertyLines_mapTokens (width : Nat) (previous : Property)
    (properties : List Property) :
    laterPropertyLines width (previous.mapTokens view)
        (properties.map (Property.mapTokens view)) =
      (laterPropertyLines width previous properties).map
        (PlannedLine.mapTokens view) := by
  induction properties generalizing previous with
  | nil => rfl
  | cons property others inductionHypothesis =>
      have isList (property : Property) :
          (property.mapTokens view).value.isList = property.value.isList :=
        PropertyValue.isList_mapTokens view property.value
      simp only [List.map_cons, laterPropertyLines, isList, List.map_append,
        propertyLines_mapTokens keeps, inductionHypothesis]
      split <;> rfl

theorem bodyLines_mapTokens (properties : List Property) :
    bodyLines (properties.map (Property.mapTokens view)) =
      (bodyLines properties).map (PlannedLine.mapTokens view) := by
  have keys : (properties.map (Property.mapTokens view)).map Property.key =
      (properties.map Property.key).map view := by
    simp [Property.mapTokens]
  cases properties with
  | nil => rfl
  | cons first others =>
      simp only [bodyLines, keys, longest_map keeps, List.map_append]
      simp only [List.map_cons, propertyLines_mapTokens keeps,
        laterPropertyLines_mapTokens keeps]

theorem statementLines_mapTokens (statement : Statement) :
    statementLines (statement.mapTokens view) =
      (statementLines statement).map (PlannedLine.mapTokens view) := by
  cases statement with
  | version version => rfl
  | block block =>
      simp [statementLines, Statement.mapTokens, Block.mapTokens,
        bodyLines_mapTokens keeps, PlannedLine.mapTokens]

/-- The plan of changed statements is the changed plan. -/
theorem statementListLines_mapTokens (statements : List Statement) :
    statementListLines (statements.map (Statement.mapTokens view)) =
      (statementListLines statements).map (PlannedLine.mapTokens view) := by
  fun_induction statementListLines statements with
  | case1 => rfl
  | case2 statement => exact statementLines_mapTokens keeps statement
  | case3 statement others several inductionHypothesis =>
      cases others with
      | nil => exact absurd rfl several
      | cons next others =>
          rw [List.map_cons, List.map_cons, statementListLines,
            statementLines_mapTokens keeps, ← List.map_cons,
            inductionHypothesis]
          · simp [PlannedLine.mapTokens]
          · simp

end

end Layout

end WorkflowLang
