import WorkflowLang.Proofs.Tree.Mapping
import WorkflowLang.Proofs.Tree.Repetition
import WorkflowLang.Document.Binding

/-!
# What stands where a string is expected

The parser puts a string or a stand-in at the name of a block and at every entry
of a property, whatever the tokens are (`Parse.isTyped`).  A member of an object has
a name (`Parse.isIdentifier_name`).
-/

namespace WorkflowLang

/-- A string, or the stand-in for one. -/
def Token.IsStringOrMissing (token : Token) : Prop :=
  token.kind = .string ∨ token.isMissing = true

/-- The tokens of a value that may name something. -/
def PropertyValue.entryTokens : PropertyValue → List Token
  | .string value => [value]
  | .array _ items _ => items.map ArrayItem.value
  | .object _ _ _ => []

/-- The members of a value; none unless it is an object. -/
def PropertyValue.objectMembers : PropertyValue → List ObjectMember
  | .string _ => []
  | .array _ _ _ => []
  | .object _ members _ => members

/-- Names and entries are strings or stand-ins for them. -/
structure Block.IsTyped (block : Block) : Prop where
  name : block.name.IsStringOrMissing
  entries : ∀ property ∈ block.properties,
    ∀ token ∈ property.value.entryTokens, token.IsStringOrMissing

namespace Cursor

theorem kind_takeFrom (resumable expected : List TokenKind) (last : Span)
    (isReported : Bool) (reports : List Diagnostic) (tokens : List Token) :
    (takeFrom resumable expected last isReported reports
        tokens).1.kind ∈ expected ∨
      (takeFrom resumable expected last isReported reports
        tokens).1.isMissing = true := by
  induction tokens generalizing last isReported reports with
  | nil => exact Or.inr rfl
  | cons token rest inductionHypothesis =>
      rw [takeFrom]
      split
      · rename_i isExpected
        exact Or.inl (List.contains_iff_mem.mp isExpected)
      · split
        · exact Or.inr rfl
        · exact inductionHypothesis _ _ _

theorem kind_take (cursor : Cursor) (resumable expected : List TokenKind) :
    (cursor.take resumable expected).1.kind ∈ expected ∨
      (cursor.take resumable expected).1.isMissing = true :=
  kind_takeFrom _ _ _ _ _ _

/-- A stand-in has no text. -/
theorem text_takeFrom_of_isMissing {resumable expected : List TokenKind}
    (notExpected : .missing ∉ expected) {last : Span} {isReported : Bool}
    {reports : List Diagnostic} {tokens : List Token}
    (absent : (takeFrom resumable expected last isReported reports
      tokens).1.isMissing = true) :
    (takeFrom resumable expected last isReported reports
      tokens).1.text = "" := by
  induction tokens generalizing last isReported reports with
  | nil => rfl
  | cons token rest inductionHypothesis =>
      rw [takeFrom] at absent ⊢
      split
      · rename_i wanted
        rw [if_pos wanted] at absent
        have isMissing : token.kind = .missing := beq_iff_eq.mp absent
        rw [isMissing] at wanted
        exact absurd (List.contains_iff_mem.mp wanted) notExpected
      · rename_i unwanted
        split
        · rfl
        · rename_i skipped
          rw [if_neg unwanted, if_neg skipped] at absent
          exact inductionHypothesis absent

theorem isStringOrMissing_take (cursor : Cursor)
    (resumable : List TokenKind) :
    (cursor.take resumable [.string]).1.IsStringOrMissing := by
  rcases cursor.kind_take resumable [.string] with isString | absent
  · exact Or.inl (List.mem_singleton.mp isString)
  · exact Or.inr absent

/-- What holds of every piece that begins with an expected token holds of all
pieces of a loop. -/
theorem Repeats.forall_pieces {Piece : Type} {close : TokenKind}
    {resumable expected : List TokenKind}
    {parsePiece : Token → Cursor → Piece × Cursor} (Holds : Piece → Prop)
    (holds : ∀ (token : Token) (cursor : Cursor), token.kind ∈ expected →
      Holds (parsePiece token cursor).1)
    {cursor finish : Cursor} {pieces : List Piece}
    (run : Repeats close resumable expected parsePiece cursor pieces finish) :
    ∀ piece ∈ pieces, Holds piece := by
  induction run with
  | stop _ => simp
  | giveUp _ _ => simp
  | @piece cursor _ _ _ present _ inductionHypothesis =>
      intro piece member
      rcases List.mem_cons.mp member with rfl | isOther
      · apply holds
        rcases cursor.kind_take resumable expected with isExpected | absent
        · exact isExpected
        · rw [present] at absent
          contradiction
      · exact inductionHypothesis piece isOther

end Cursor

namespace SyntaxTree

theorem isString_parseItems (cursor : Cursor) :
    ∀ item ∈ (parseItems cursor).1, item.value.kind = .string := by
  apply (parseItems_repeats cursor).forall_pieces fun item =>
    item.value.kind = .string
  intro token cursor isString
  exact List.mem_singleton.mp isString

theorem isStringOrMissing_parseValue {first : Token}
    (begins : first.kind ∈ [.string, .leftBrace, .leftBracket] ∨
      first.isMissing = true) (cursor : Cursor) :
    ∀ token ∈ (parseValue first cursor).1.entryTokens,
      token.IsStringOrMissing := by
  unfold parseValue
  split
  · intro token member
    obtain ⟨item, present, rfl⟩ := List.mem_map.mp member
    exact Or.inl (isString_parseItems cursor item present)
  · intro token member
    simp [PropertyValue.entryTokens] at member
  · rename_i notBracket notBrace
    intro token member
    obtain rfl := List.mem_singleton.mp member
    rcases begins with isFirst | absent
    · simp only [List.mem_cons, List.not_mem_nil, or_false] at isFirst
      rcases isFirst with isString | isBrace | isBracket
      · exact Or.inl isString
      · exact absurd isBrace notBrace
      · exact absurd isBracket notBracket
    · exact Or.inr absent

theorem isStringOrMissing_parseProperties (cursor : Cursor) :
    ∀ property ∈ (parseProperties cursor).1,
      ∀ token ∈ property.value.entryTokens, token.IsStringOrMissing := by
  apply (parseProperties_repeats cursor).forall_pieces fun property =>
    ∀ token ∈ property.value.entryTokens, token.IsStringOrMissing
  intro key cursor _
  apply isStringOrMissing_parseValue
  exact Cursor.kind_take _ _ _

theorem isKey_parseProperties (cursor : Cursor) :
    ∀ property ∈ (parseProperties cursor).1,
      property.key.kind ∈ TokenKind.propertyKeywords := by
  apply (parseProperties_repeats cursor).forall_pieces fun property =>
    property.key.kind ∈ TokenKind.propertyKeywords
  intro key cursor isKey
  exact isKey

theorem isIdentifier_parseMembers (cursor : Cursor) :
    ∀ member ∈ (parseMembers cursor).1, member.name.kind = .identifier := by
  apply (parseMembers_repeats cursor).forall_pieces fun member =>
    member.name.kind = .identifier
  intro token cursor isIdentifier
  exact List.mem_singleton.mp isIdentifier

theorem isIdentifier_parseValue (first : Token) (cursor : Cursor) :
    ∀ member ∈ (parseValue first cursor).1.objectMembers,
      member.name.kind = .identifier := by
  unfold parseValue
  split
  · simp [PropertyValue.objectMembers]
  · exact isIdentifier_parseMembers cursor
  · simp [PropertyValue.objectMembers]

theorem isIdentifier_parseProperties (cursor : Cursor) :
    ∀ property ∈ (parseProperties cursor).1,
      ∀ member ∈ property.value.objectMembers,
        member.name.kind = .identifier := by
  apply (parseProperties_repeats cursor).forall_pieces fun property =>
    ∀ member ∈ property.value.objectMembers, member.name.kind = .identifier
  intro key cursor _
  exact isIdentifier_parseValue _ _

theorem isTyped_parseBlock (kind : BlockKind) (keyword : Token)
    (cursor : Cursor) : (parseBlock kind keyword cursor).1.IsTyped := by
  constructor
  · exact cursor.isStringOrMissing_take _
  · exact isStringOrMissing_parseProperties _

/-- Behind a keyword a block is read by one step. -/
theorem exists_parseBlock_of_parseAfterKeyword {keyword : Token}
    {cursor : Cursor} {block : Block}
    (isBlock : (parseAfterKeyword keyword cursor).1 = some (.block block)) :
    ∃ kind, block = (parseBlock kind keyword cursor).1 := by
  unfold parseAfterKeyword at isBlock
  split at isBlock
  · simp at isBlock
  · exact ⟨.workflow, by simpa using isBlock.symm⟩
  · exact ⟨.action, by simpa using isBlock.symm⟩
  · simp at isBlock

theorem exists_parseBlock_of_parseStatements (cursor : Cursor) :
    ∀ block, Statement.block block ∈ (parseStatements cursor).1 →
      ∃ kind keyword start, block = (parseBlock kind keyword start).1 := by
  fun_induction parseStatements cursor with
  | case1 cursor _ keyword statement others inductionHypothesis =>
      intro block member
      rcases List.mem_append.mp member with isFirst | isOther
      · obtain ⟨kind, read⟩ := exists_parseBlock_of_parseAfterKeyword
          (Option.mem_toList.mp isFirst)
        exact ⟨kind, keyword.1, keyword.2, read⟩
      · exact inductionHypothesis block isOther
  | case2 => simp

end SyntaxTree

/-- Each block of a tree was read at some place. -/
theorem Parse.exists_parseBlock {tokens : List Token} {block : Block}
    (member : block ∈ (ofTokens tokens).tree.blocks) :
    ∃ kind keyword cursor,
      block = (SyntaxTree.parseBlock kind keyword cursor).1 :=
  SyntaxTree.exists_parseBlock_of_parseStatements _ block
    (SyntaxTree.mem_of_mem_blocks member)

theorem Parse.isTyped (tokens : List Token) :
    ∀ block ∈ (ofTokens tokens).tree.blocks, block.IsTyped := by
  intro block member
  obtain ⟨kind, keyword, cursor, rfl⟩ := exists_parseBlock member
  exact SyntaxTree.isTyped_parseBlock kind keyword cursor

theorem Parse.isKey_key {tokens : List Token} {block : Block}
    (isBlock : block ∈ (ofTokens tokens).tree.blocks) {property : Property}
    (isProperty : property ∈ block.properties) :
    property.key.kind ∈ TokenKind.propertyKeywords := by
  obtain ⟨kind, keyword, cursor, rfl⟩ := exists_parseBlock isBlock
  exact SyntaxTree.isKey_parseProperties _ property isProperty

theorem Parse.text_name_of_isMissing {tokens : List Token} {block : Block}
    (isBlock : block ∈ (ofTokens tokens).tree.blocks)
    (absent : block.name.isMissing = true) : block.name.text = "" := by
  obtain ⟨kind, keyword, cursor, rfl⟩ := exists_parseBlock isBlock
  exact Cursor.text_takeFrom_of_isMissing (by decide) absent

/-- No member of an object is without a name. -/
theorem Parse.isIdentifier_name {tokens : List Token} {block : Block}
    (isBlock : block ∈ (ofTokens tokens).tree.blocks) {property : Property}
    (isProperty : property ∈ block.properties) {member : ObjectMember}
    (isMember : member ∈ property.value.objectMembers) :
    member.name.kind = .identifier := by
  obtain ⟨kind, keyword, cursor, rfl⟩ := exists_parseBlock isBlock
  exact SyntaxTree.isIdentifier_parseProperties _ property isProperty member
    isMember

end WorkflowLang
