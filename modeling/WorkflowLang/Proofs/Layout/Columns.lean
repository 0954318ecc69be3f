import WorkflowLang.Proofs.Layout.Pieces
import WorkflowLang.Proofs.Layout.Standing

/-!
# Columns of a layout

The first token of a line of a layout stands behind the indentation, and the second
one behind a first token that was made wide enough.  Keys and names are words, which
take as many columns as they have characters.  So in a layout the pieces of a tree
begin at the columns of their depths (`Compilation.exists_standsOn`), and the equal
signs of a block, or of an object, stand in one column
(`Compilation.column_equal_property`, `Compilation.column_equal_member`).
-/

namespace WorkflowLang

/-! ## Words -/

theorem unitWidth_of_isWordPart {character : Char}
    (isPart : isWordPart character = true) : Text.unitWidth character = 1 := by
  have atMost : character.val ≤ 'z'.val := by
    rw [isWordPart, isWordStart, Bool.or_eq_true, Bool.or_eq_true] at isPart
    rcases isPart with (isUnderscore | isLetter) | isDigit
    · rw [beq_iff_eq.mp isUnderscore]
      decide
    · rcases Bool.or_eq_true_iff.mp isLetter with isUpper | isLower
      · exact UInt32.le_trans (of_decide_eq_true isUpper).2 (by decide)
      · exact of_decide_eq_true (Bool.and_eq_true_iff.mp isLower).2
    · have digit := of_decide_eq_true (Bool.and_eq_true_iff.mp isDigit).2
      exact UInt32.le_trans digit (by decide)
  have small : character.toNat < 128 := Nat.lt_of_le_of_lt atMost (by decide)
  rw [Text.unitWidth, if_pos (by omega)]

/-- The kinds of words. -/
def TokenKind.words : List TokenKind :=
  .identifier :: TokenKind.keywords

theorem not_mem_words_of_mark {character : Char} {kind : TokenKind}
    (mark : punctuationKind? character = some kind) :
    kind ∉ TokenKind.words := by
  unfold punctuationKind? at mark
  split at mark
  all_goals
    cases mark
    try decide

/-- Keywords and identifiers are words. -/
theorem Token.IsRecut.isWordPart {token : Token} (recut : token.IsRecut)
    (isWord : token.kind ∈ TokenKind.words) :
    ∀ character ∈ token.text.toList, isWordPart character = true := by
  obtain ⟨first, others, text, begins, again⟩ := recut
  have cut := again Position.origin [] (by simp [TokenKind.EndsBefore])
  rw [List.append_nil] at cut
  have kind : (Lexeme.cut Position.origin first others).kind ∈
      TokenKind.words := by
    rwa [cut]
  rw [text]
  rcases Lexeme.cut_cases first others with
    ⟨mark, isMark⟩ | isComment | rfl | isDigit | isStart | unclean
  · rw [Lexeme.cut_of_mark isMark] at kind
    exact absurd kind (not_mem_words_of_mark isMark)
  · rw [Lexeme.cut_of_comment isComment] at kind
    exact absurd kind (show TokenKind.comment ∉ _ by decide)
  · rw [Lexeme.cut_of_quote] at kind
    exact absurd kind (show TokenKind.string ∉ _ by decide)
  · rw [Lexeme.cut_of_isDigit isDigit] at kind
    exact absurd kind (show TokenKind.integer ∉ _ by decide)
  · rw [Lexeme.cut_of_isWordStart isStart] at cut
    have run : others.takeWhile WorkflowLang.isWordPart = others :=
      List.tail_eq_of_cons_eq (congrArg Lexeme.characters cut)
    refine List.forall_mem_cons.mpr ⟨?_, List.takeWhile_eq_self_iff.mp run⟩
    simp [WorkflowLang.isWordPart, isStart]
  · exact absurd (by rw [cut]) (unclean Position.origin)

theorem Text.units_eq_length {text : List Char}
    (narrow : ∀ character ∈ text, unitWidth character = 1) :
    units text = text.length := by
  induction text with
  | nil => rfl
  | cons character others inductionHypothesis =>
      obtain ⟨here, behind⟩ := List.forall_mem_cons.mp narrow
      rw [units_cons, here, inductionHypothesis behind, List.length_cons,
        Nat.add_comm]

theorem Token.IsRecut.units_word {token : Token} (recut : token.IsRecut)
    (isWord : token.kind ∈ TokenKind.words) :
    Text.units token.text.toList = token.text.length := by
  rw [Text.units_eq_length fun character member =>
    unitWidth_of_isWordPart (recut.isWordPart isWord character member),
    String.length_toList]

theorem IsBlank.advance {text : List Char} (blank : IsBlank text)
    (position : Position) :
    position.advance text = position.right text.length := by
  rw [Position.advance_eq_right fun character member =>
    isLineBreak_of_blank (blank character member), Text.units_eq_length]
  intro character member
  rcases blank character member with rfl | rfl <;> rfl

/-! ## Equal signs of a tree -/

theorem Cursor.kind_take_ne {kind : TokenKind} (cursor : Cursor)
    {resumable expected : List TokenKind} (notExpected : kind ∉ expected)
    (notMissing : kind ≠ .missing) :
    (cursor.take resumable expected).1.kind ≠ kind := by
  rintro rfl
  rcases cursor.kind_take resumable expected with isExpected | absent
  · exact notExpected isExpected
  · exact notMissing (by simpa [Token.isMissing] using absent)

namespace SyntaxTree

/-- What stands for an equal sign is not a comma. -/
theorem equal_parseMembers (cursor : Cursor) :
    ∀ member ∈ (parseMembers cursor).1, member.equal.kind ≠ .comma := by
  apply (parseMembers_repeats cursor).forall_pieces fun member =>
    member.equal.kind ≠ .comma
  intro name cursor _
  exact cursor.kind_take_ne (by decide) (by decide)

theorem equal_parseProperties (cursor : Cursor) :
    ∀ property ∈ (parseProperties cursor).1,
      property.equal.kind ≠ .comma ∧
        ∀ member ∈ property.value.objectMembers,
          member.equal.kind ≠ .comma := by
  apply (parseProperties_repeats cursor).forall_pieces fun property =>
    property.equal.kind ≠ .comma ∧
      ∀ member ∈ property.value.objectMembers, member.equal.kind ≠ .comma
  intro key cursor _
  refine ⟨cursor.kind_take_ne (by decide) (by decide), ?_⟩
  unfold parseProperty parseValue
  dsimp only
  split
  · simp [PropertyValue.objectMembers]
  · exact equal_parseMembers _
  · simp [PropertyValue.objectMembers]

end SyntaxTree

theorem Parse.equal_ne_comma {tokens : List Token} {block : Block}
    (isBlock : block ∈ (ofTokens tokens).tree.blocks) {property : Property}
    (isProperty : property ∈ block.properties) :
    property.equal.kind ≠ .comma ∧
      ∀ member ∈ property.value.objectMembers,
        member.equal.kind ≠ .comma := by
  obtain ⟨kind, keyword, cursor, rfl⟩ := exists_parseBlock isBlock
  exact SyntaxTree.equal_parseProperties _ property isProperty

namespace Layout

/-! ## The lines of keys and names -/

theorem mem_statementListLines {statements : List Statement}
    {statement : Statement} (isStatement : statement ∈ statements)
    {line : PlannedLine} (isLine : line ∈ statementLines statement) :
    line ∈ statementListLines statements := by
  fun_induction statementListLines statements with
  | case1 => simp at isStatement
  | case2 =>
      obtain rfl := List.mem_singleton.mp isStatement
      exact isLine
  | case3 first others _ inductionHypothesis =>
      rcases List.mem_cons.mp isStatement with rfl | isOther
      · exact List.mem_append_left _ isLine
      · exact List.mem_append_right _
          (List.mem_cons_of_mem _ (inductionHypothesis isOther))

theorem mem_laterPropertyLines {width : Nat} {previous property : Property}
    {properties : List Property} (isProperty : property ∈ properties)
    {line : PlannedLine} (isLine : line ∈ propertyLines width property) :
    line ∈ laterPropertyLines width previous properties := by
  induction properties generalizing previous with
  | nil => simp at isProperty
  | cons next others inductionHypothesis =>
      rw [laterPropertyLines, List.mem_append, List.mem_append]
      rcases List.mem_cons.mp isProperty with rfl | isOther
      · exact Or.inl (Or.inr isLine)
      · exact Or.inr (inductionHypothesis isOther)

theorem mem_statementLines_of_property {block : Block} {property : Property}
    (isProperty : property ∈ block.properties) {line : PlannedLine}
    (isLine : line ∈ propertyLines (longest (block.properties.map Property.key))
      property) :
    line ∈ statementLines (.block block) := by
  refine List.mem_append_left _ (List.mem_cons_of_mem _ ?_)
  unfold bodyLines
  generalize longest (block.properties.map Property.key) = width at isLine
  split
  · rename_i nothing
    simp [nothing] at isProperty
  · rename_i first others properties
    rw [properties] at isProperty
    rcases List.mem_cons.mp isProperty with rfl | isOther
    · exact List.mem_append_left _ isLine
    · exact List.mem_append_right _ (mem_laterPropertyLines isOther isLine)

/-- The line on which a property begins. -/
theorem exists_line_of_property (width : Nat) (property : Property) :
    ∃ opening, .tokens 1 1 width [property.key, property.equal, opening] ∈
      propertyLines width property := by
  obtain ⟨key, equal, value⟩ := property
  cases value with
  | string value => exact ⟨value, List.mem_singleton_self _⟩
  | array openBracket items closeBracket =>
      exact ⟨openBracket, List.mem_cons_self⟩
  | object openBracket members closeBracket =>
      exact ⟨openBracket, List.mem_cons_self⟩

theorem mem_propertyLines_of_member (width : Nat) {property : Property}
    {member : ObjectMember} (isMember : member ∈ property.value.objectMembers) :
    .tokens 2 2
        (longest (property.value.objectMembers.map ObjectMember.name))
          member.tokens ∈ propertyLines width property := by
  obtain ⟨key, equal, value⟩ := property
  cases value with
  | string value => simp [PropertyValue.objectMembers] at isMember
  | array openBracket items closeBracket =>
      simp [PropertyValue.objectMembers] at isMember
  | object openBracket members closeBracket =>
      exact List.mem_append_left _ (List.mem_cons_of_mem _
        (List.mem_map_of_mem isMember))

theorem le_longest {tokens : List Token} {token : Token}
    (member : token ∈ tokens) : token.text.length ≤ longest tokens := by
  have bound (lengths : List Nat) (start : Nat) :
      start ≤ lengths.foldl max start ∧
        ∀ length ∈ lengths, length ≤ lengths.foldl max start := by
    induction lengths generalizing start with
    | nil => simp
    | cons length others inductionHypothesis =>
        obtain ⟨atLeast, others⟩ := inductionHypothesis (max start length)
        rw [List.foldl_cons]
        refine ⟨(Nat.le_max_left _ _).trans atLeast, ?_⟩
        exact List.forall_mem_cons.mpr
          ⟨(Nat.le_max_right _ _).trans atLeast, others⟩
  exact (bound _ 0).2 _ (List.mem_map_of_mem member)

/-! ## The tokens of a line -/

theorem advance_indentation {indent : String} (isIndent : IsIndent indent)
    (number depth : Nat) :
    (Position.mk number 0).advance (TokenLine.indentation indent depth) =
      ⟨number, depth * indent.length⟩ := by
  rw [(TokenLine.isBlank_indentation isIndent depth).advance]
  simp [Position.right, TokenLine.indentation, String.length_toList]

/-- The first token of a line stands behind the indentation. -/
theorem placed_cons {indent : String} (isIndent : IsIndent indent)
    (number depth width : Nat) (first : Token) (others : List Token) :
    TokenLine.placed indent number ⟨depth, width, first :: others⟩ =
      first.placedAt ⟨number, depth * indent.length⟩ ::
        SpacedToken.placed ⟨number, depth * indent.length +
          (Text.units first.text.toList + (width - first.text.length))⟩
            (TokenLine.later others) := by
  simp only [TokenLine.placed, advance_indentation isIndent]
  rw [(TokenLine.isBlank_padding width first).advance]
  simp only [Position.right, TokenLine.padding, List.length_replicate,
    Nat.add_assoc]

/-- The second token of a line stands behind a first one of full width, if that is a
word. -/
theorem column_of_placed {indent : String} (isIndent : IsIndent indent)
    {number depth width : Nat} {first : Token} {others : List Token}
    (readable : TokenLine.IsReadable ⟨depth, width, first :: others⟩)
    (plain : first.kind ≠ .comment) {key second : Token} {rest : List Token}
    (placed : key :: second :: rest = Token.withoutComments
      (TokenLine.placed indent number ⟨depth, width, first :: others⟩))
    (isWord : key.kind ∈ TokenKind.words)
    (fits : key.text.length ≤ width) (notComma : second.kind ≠ .comma) :
    second.span.start.column = depth * indent.length + width + 1 := by
  rw [placed_cons isIndent, Token.withoutComments_cons (by exact plain)]
    at placed
  obtain ⟨rfl, behind⟩ := List.cons.inj placed
  have units : Text.units first.text.toList = first.text.length :=
    (readable.isRecut first List.mem_cons_self).units_word isWord
  cases others with
  | nil => simp [TokenLine.later, SpacedToken.placed] at behind
  | cons next others =>
      rw [TokenLine.later, List.map_cons, SpacedToken.placed] at behind
      by_cases isComment : next.kind = .comment
      · -- A comment ends its line, so no other token would be the second one.
        have isLast : others = [] := by
          by_contra notLast
          obtain ⟨other, more, rfl⟩ := List.exists_cons_of_ne_nil notLast
          exact readable.comment_last next (by simp) isComment
        rw [Token.withoutComments_comment (by exact isComment), isLast]
          at behind
        simp [SpacedToken.placed] at behind
      · rw [Token.withoutComments_cons (by exact isComment)] at behind
        obtain ⟨rfl, -⟩ := List.cons.inj behind
        have gap : next.kind ≠ .comma := notComma
        have fits : first.text.length ≤ width := fits
        have units : Text.units first.text.toList = first.text.length := units
        have blank : IsBlank [' '] := by simp [IsBlank]
        simp only [Token.placedAt, if_neg gap, blank.advance, Position.right,
          List.length_singleton, units]
        omega

end Layout

/-! ## The pieces of a layout -/

/-- A piece stands on a line of its own, from its first token on, behind the
indentation of its depth. -/
structure Piece.StandsOn (piece : Piece) (indent : String)
    (lines : List (List Char)) (number : Nat) (first : Token) : Prop where
  isFirst : piece.tokens.head? = some first
  onLine : ∀ token ∈ piece.tokens,
    token.span.start.line = number ∧ token.span.finish.line = number
  column : first.span.start.column = piece.depth * indent.length
  begins : ∃ behind, lines[number]? = some
    ((List.replicate piece.depth indent.toList).flatten ++
      (first.text.toList ++ behind))

namespace Compilation

open Layout (PlannedLine TokenLine)

variable {text : String}

/-- Each planned line of the tree of a layout is one of the printed lines. -/
theorem exists_line_of_mem_treeLines
    (clean : (ofText text).hasSyntaxErrors = false) {indent : String}
    (isIndent : IsIndent indent) {depth commentDepth width : Nat}
    {planned : List Token}
    (member : .tokens depth commentDepth width planned ∈
      Layout.treeLines (ofText (layoutOf text indent)).tree) :
    ∃ number first others,
      (layoutLines text)[number]? = some ⟨depth, width, first :: others⟩ ∧
      first.kind ≠ .comment ∧
      planned = Token.withoutComments (TokenLine.placed indent number
        ⟨depth, width, first :: others⟩) := by
  rw [treeLines_eq_standing clean isIndent] at member
  obtain ⟨index, first, others, isLine, plain, place⟩ :=
    Layout.exists_line_of_mem_standing (isSound_settledLines clean) member
  rw [Nat.zero_add] at place
  refine ⟨index, first, others, ?_, plain, place⟩
  obtain ⟨inLines, -⟩ := List.getElem?_eq_some_iff.mp isLine
  rw [layoutLines_eq, Layout.sheet, List.append_assoc, List.append_assoc,
    List.getElem?_append_left inLines]
  exact isLine

/-- The pieces of a layout stand on lines of their own. -/
theorem exists_standsOn (clean : (ofText text).hasSyntaxErrors = false)
    {indent : String} (isIndent : IsIndent indent) {piece : Piece}
    (member : piece ∈ (ofText (layoutOf text indent)).tree.pieces) :
    ∃ number first, piece.StandsOn indent
      ((layoutLines text).map (TokenLine.render indent)) number first := by
  have stillClean := (tree_layoutOf clean isIndent).1
  rw [SyntaxTree.pieces, ← Layout.pieces_statementListLines,
    ← treeLines_eq stillClean, List.mem_filterMap] at member
  obtain ⟨line, isLine, isPiece⟩ := member
  cases line with
  | blank => contradiction
  | tokens depth commentDepth width planned =>
      obtain rfl := Option.some.inj isPiece
      obtain ⟨number, first, others, isPrinted, plain, rfl⟩ :=
        exists_line_of_mem_treeLines clean isIndent isLine
      refine ⟨number, first.placedAt ⟨number, depth * indent.length⟩, ?_, ?_,
        rfl, TokenLine.padding width first ++
          SpacedToken.text (TokenLine.later others), ?_⟩
      · rw [Layout.placed_cons isIndent,
          Token.withoutComments_cons (by exact plain)]
        rfl
      · intro token isToken
        exact TokenLine.line_of_mem_placed isIndent
          (List.mem_of_mem_filter isToken)
      · rw [List.getElem?_map, isPrinted]
        rfl

theorem column_second (clean : (ofText text).hasSyntaxErrors = false)
    {indent : String} (isIndent : IsIndent indent)
    {depth commentDepth width : Nat} {key second : Token} {rest : List Token}
    (member : .tokens depth commentDepth width (key :: second :: rest) ∈
      Layout.treeLines (ofText (layoutOf text indent)).tree)
    (isWord : key.kind ∈ TokenKind.words)
    (inside : key.text.length ≤ width) (notComma : second.kind ≠ .comma) :
    second.span.start.column = depth * indent.length + width + 1 := by
  obtain ⟨number, first, others, isPrinted, plain, placed⟩ :=
    exists_line_of_mem_treeLines clean isIndent member
  exact Layout.column_of_placed isIndent
    ((fits clean).isReadable _ (List.mem_of_getElem? isPrinted)) plain placed
    isWord inside notComma

/-- The equal signs of a block of a layout stand in one column. -/
theorem column_equal_property (clean : (ofText text).hasSyntaxErrors = false)
    {indent : String} (isIndent : IsIndent indent) {block : Block}
    (isBlock : block ∈ (ofText (layoutOf text indent)).tree.blocks)
    {property : Property} (isProperty : property ∈ block.properties) :
    property.equal.span.start.column = 1 * indent.length +
      Layout.longest (block.properties.map Property.key) + 1 := by
  have stillClean := (tree_layoutOf clean isIndent).1
  obtain ⟨opening, isLine⟩ := Layout.exists_line_of_property
    (Layout.longest (block.properties.map Property.key)) property
  have planned := Layout.mem_statementListLines
    (SyntaxTree.mem_of_mem_blocks isBlock)
    (Layout.mem_statementLines_of_property isProperty isLine)
  rw [← treeLines_eq stillClean] at planned
  refine column_second clean isIndent planned ?_
    (Layout.le_longest (List.mem_map_of_mem isProperty))
    (Parse.equal_ne_comma isBlock isProperty).1
  exact List.mem_cons_of_mem _
    (List.mem_append_right _ (Parse.isKey_key isBlock isProperty))

/-- The equal signs of an object of a layout stand in one column. -/
theorem column_equal_member (clean : (ofText text).hasSyntaxErrors = false)
    {indent : String} (isIndent : IsIndent indent) {block : Block}
    (isBlock : block ∈ (ofText (layoutOf text indent)).tree.blocks)
    {property : Property} (isProperty : property ∈ block.properties)
    {member : ObjectMember}
    (isMember : member ∈ property.value.objectMembers) :
    member.equal.span.start.column = 2 * indent.length +
      Layout.longest
        (property.value.objectMembers.map ObjectMember.name) + 1 := by
  have stillClean := (tree_layoutOf clean isIndent).1
  have planned := Layout.mem_statementListLines
    (SyntaxTree.mem_of_mem_blocks isBlock)
    (Layout.mem_statementLines_of_property isProperty
      (Layout.mem_propertyLines_of_member _ isMember))
  rw [← treeLines_eq stillClean] at planned
  refine column_second clean isIndent planned ?_
    (Layout.le_longest (List.mem_map_of_mem isMember))
    ((Parse.equal_ne_comma isBlock isProperty).2 member isMember)
  rw [Parse.isIdentifier_name isBlock isProperty isMember]
  exact List.mem_cons_self

end Compilation

end WorkflowLang
