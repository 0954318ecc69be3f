import WorkflowLang.Proofs.Tree.Acceptance
import WorkflowLang.Proofs.Tree.StandIns

/-!
# Where the tokens of a tree stand

Every token of a tree has the span of a token of the input, whether it is that
token or stands in for one that is absent (`Parse.span_mem_of_mem_tree`).  What
each step keeps of the cursor and of the tokens taken so far is kept by the whole
parser (`Cursor.Collects`); it is kept that all of them stand at tokens of the
input.  The steps inside a statement leave statement keywords where they stand,
those inside a property leave all keywords, so an invariant may rely on that.
-/

namespace WorkflowLang

open TokenKind (statementKeywords propertyKeywords)

namespace Cursor

/-- A step can be resumed on some kinds and asks for none of them. -/
def Leaves (kinds resumable expected : List TokenKind) : Prop :=
  ∀ kind ∈ kinds, kind ∈ resumable ∧ kind ∉ expected

instance (kinds resumable expected : List TokenKind) :
    Decidable (Leaves kinds resumable expected) :=
  inferInstanceAs (Decidable (∀ kind ∈ kinds, _))

/-- What holds of a cursor and the tokens taken before it is kept by every step
that leaves some kinds, and does not depend on the last token that was taken. -/
structure Collects (kinds : List TokenKind)
    (Invariant : Cursor → List Token → Prop) : Prop where
  take : ∀ {cursor : Cursor} {taken : List Token}
    {resumable expected : List TokenKind}, Leaves kinds resumable expected →
      Invariant cursor taken →
        Invariant (cursor.take resumable expected).2
          (taken ++ [(cursor.take resumable expected).1])
  takeComma : ∀ {cursor : Cursor} {taken : List Token},
    Invariant cursor taken →
      Invariant cursor.takeComma.2 (taken ++ cursor.takeComma.1.toList)
  drop : ∀ {cursor : Cursor} {taken : List Token} {token : Token},
    Invariant cursor (taken ++ [token]) → Invariant cursor taken

theorem Collects.mono {kinds wider : List TokenKind}
    {Invariant : Cursor → List Token → Prop}
    (collects : Collects kinds Invariant) (included : kinds ⊆ wider) :
    Collects wider Invariant where
  take leaves := collects.take fun kind member => leaves kind (included member)
  takeComma := collects.takeComma
  drop := collects.drop

theorem Collects.repeats {kinds : List TokenKind}
    {Invariant : Cursor → List Token → Prop}
    (collects : Collects kinds Invariant) {Piece : Type} {close : TokenKind}
    {resumable expected : List TokenKind}
    (leaves : Leaves kinds resumable expected)
    {parsePiece : Token → Cursor → Piece × Cursor}
    {tokensOf : Piece → List Token}
    (piece : ∀ {first : Token} {cursor : Cursor} {taken : List Token},
      Invariant cursor (taken ++ [first]) →
        Invariant (parsePiece first cursor).2
          (taken ++ tokensOf (parsePiece first cursor).1))
    {cursor finish : Cursor} {pieces : List Piece}
    (run : Repeats close resumable expected parsePiece cursor pieces finish)
    {taken : List Token} (kept : Invariant cursor taken) :
    Invariant finish (taken ++ pieces.flatMap tokensOf) := by
  induction run generalizing taken with
  | stop _ => simpa using kept
  | giveUp _ _ => simpa using collects.drop (collects.take leaves kept)
  | piece _ _ _ inductionHypothesis =>
      have others := inductionHypothesis (piece (collects.take leaves kept))
      simpa [List.append_assoc] using others

end Cursor

namespace SyntaxTree

variable {Invariant : Cursor → List Token → Prop} {taken : List Token}
  {cursor : Cursor}

section

variable (collects : Cursor.Collects TokenKind.keywords Invariant)
include collects

theorem parseItem_collects {value : Token}
    (kept : Invariant cursor (taken ++ [value])) :
    Invariant (parseItem value cursor).2
      (taken ++ (parseItem value cursor).1.tokens) := by
  have behind := collects.takeComma kept
  rwa [List.append_assoc] at behind

theorem parseMember_collects {name : Token}
    (kept : Invariant cursor (taken ++ [name])) :
    Invariant (parseMember name cursor).2
      (taken ++ (parseMember name cursor).1.tokens) := by
  have behindEqual := collects.take
    (show Cursor.Leaves _ memberResumable [.equal] by decide) kept
  have behindValue := collects.take
    (show Cursor.Leaves _ memberResumable [.string] by decide) behindEqual
  have behind := collects.takeComma behindValue
  simpa [parseMember, ObjectMember.tokens] using behind

theorem parseValue_collects {first : Token}
    (kept : Invariant cursor (taken ++ [first])) :
    Invariant (parseValue first cursor).2
      (taken ++ (parseValue first cursor).1.tokens) := by
  unfold parseValue
  split
  · have behindItems := collects.repeats (by decide)
      (parseItem_collects collects) (parseItems_repeats cursor) kept
    have behind := collects.take
      (show Cursor.Leaves _ propertyResumable [.rightBracket] by decide)
      behindItems
    simpa [PropertyValue.tokens] using behind
  · have behindMembers := collects.repeats (by decide)
      (parseMember_collects collects) (parseMembers_repeats cursor) kept
    have behind := collects.take
      (show Cursor.Leaves _ propertyResumable [.rightBrace] by decide)
      behindMembers
    simpa [PropertyValue.tokens] using behind
  · exact kept

theorem parseProperty_collects {key : Token}
    (kept : Invariant cursor (taken ++ [key])) :
    Invariant (parseProperty key cursor).2
      (taken ++ (parseProperty key cursor).1.tokens) := by
  have behindEqual := collects.take
    (show Cursor.Leaves _ propertyResumable [.equal] by decide) kept
  have behindFirst := collects.take
    (show Cursor.Leaves _ propertyResumable
      [.string, .leftBrace, .leftBracket] by decide) behindEqual
  have behind := parseValue_collects collects behindFirst
  simpa [parseProperty, Property.tokens] using behind

end

section

variable (collects : Cursor.Collects statementKeywords Invariant)
include collects

/-- What is kept up to the place where a block looks for its closing bracket. -/
theorem parseBody_collects {keyword : Token}
    (kept : Invariant cursor (taken ++ [keyword])) :
    let name := cursor.take statementKeywords [.string]
    let openBracket := name.2.take statementKeywords [.leftBrace]
    let properties := parseProperties openBracket.2
    Invariant properties.2
      (taken ++ ([keyword, name.1, openBracket.1] ++
        properties.1.flatMap Property.tokens)) := by
  intro name openBracket properties
  have behindName := collects.take
    (show Cursor.Leaves _ statementKeywords [.string] by decide) kept
  have behindOpen := collects.take
    (show Cursor.Leaves _ statementKeywords [.leftBrace] by decide) behindName
  have inProperty := collects.mono
    (List.subset_append_left statementKeywords propertyKeywords)
  have behindProperties := collects.repeats (by decide)
    (parseProperty_collects inProperty) (parseProperties_repeats _) behindOpen
  simpa [List.append_assoc] using behindProperties

theorem parseBlock_collects (kind : BlockKind) {keyword : Token}
    (kept : Invariant cursor (taken ++ [keyword])) :
    Invariant (parseBlock kind keyword cursor).2
      (taken ++ (parseBlock kind keyword cursor).1.tokens) := by
  have behind := collects.take
    (show Cursor.Leaves _ statementKeywords [.rightBrace] by decide)
    (parseBody_collects collects kept)
  rwa [List.append_assoc] at behind

theorem parseVersion_collects {keyword : Token}
    (kept : Invariant cursor (taken ++ [keyword])) :
    Invariant (parseVersion keyword cursor).2
      (taken ++ (parseVersion keyword cursor).1.tokens) := by
  have behindEqual := collects.take
    (show Cursor.Leaves _ statementKeywords [.equal] by decide) kept
  have behind := collects.take
    (show Cursor.Leaves _ statementKeywords [.integer] by decide) behindEqual
  simpa [parseVersion, VersionStatement.tokens] using behind

theorem parseAfterKeyword_collects {keyword : Token}
    (kept : Invariant cursor (taken ++ [keyword])) :
    Invariant (parseAfterKeyword keyword cursor).2
      (taken ++ (parseAfterKeyword keyword cursor).1.toList.flatMap
        Statement.tokens) := by
  unfold parseAfterKeyword
  split
  · simpa [Statement.tokens] using parseVersion_collects collects kept
  · simpa [Statement.tokens] using
      parseBlock_collects collects .workflow kept
  · simpa [Statement.tokens] using parseBlock_collects collects .action kept
  · simpa using collects.drop kept

end

end SyntaxTree

namespace Cursor

variable {input : List Token}

/-- A cursor in an input behind one of its tokens, and tokens taken before it that
stand at tokens of the input. -/
structure Stands (input : List Token) (cursor : Cursor) (taken : List Token) :
    Prop where
  within : cursor.IsWithin input
  last_mem : cursor.last ∈ input.map Token.span
  taken_mem : ∀ token ∈ taken, token.span ∈ input.map Token.span

theorem span_mem_of_cons_subset {token : Token} {rest : List Token}
    (within : token :: rest ⊆ input) :
    token.span ∈ input.map Token.span ∧ rest ⊆ input := by
  obtain ⟨isToken, restWithin⟩ := List.cons_subset.mp within
  exact ⟨List.mem_map_of_mem isToken, restWithin⟩

theorem span_mem_takeFrom {tokens : List Token} (within : tokens ⊆ input)
    (resumable expected : List TokenKind) {last : Span}
    (placed : last ∈ input.map Token.span) (isReported : Bool)
    (reports : List Diagnostic) :
    (takeFrom resumable expected last isReported reports tokens).1.span ∈
        input.map Token.span ∧
      (takeFrom resumable expected last isReported reports tokens).2.last ∈
        input.map Token.span := by
  induction tokens generalizing last isReported reports with
  | nil => exact ⟨placed, placed⟩
  | cons token rest inductionHypothesis =>
      obtain ⟨here, restWithin⟩ := span_mem_of_cons_subset within
      rw [takeFrom]
      split
      · exact ⟨here, here⟩
      · split
        · exact ⟨here, placed⟩
        · exact inductionHypothesis restWithin here _ _

theorem Stands.step {cursor : Cursor} {taken : List Token}
    (stands : Stands input cursor taken) (resumable expected : List TokenKind) :
    Stands input (cursor.take resumable expected).2
      (taken ++ [(cursor.take resumable expected).1]) := by
  obtain ⟨within, placed, takenMem⟩ := stands
  obtain ⟨spanMem, lastMem⟩ := span_mem_takeFrom within resumable expected
    placed cursor.isReported cursor.reports
  refine ⟨within.take resumable expected, lastMem, ?_⟩
  rw [List.forall_mem_append, List.forall_mem_singleton]
  exact ⟨takenMem, spanMem⟩

theorem Stands.stepComma {cursor : Cursor} {taken : List Token}
    (stands : Stands input cursor taken) :
    Stands input cursor.takeComma.2
      (taken ++ cursor.takeComma.1.toList) := by
  obtain ⟨within, placed, takenMem⟩ := stands
  obtain ⟨tokens, last, isReported, found⟩ := cursor
  cases tokens with
  | nil => exact ⟨within, placed, by simpa [Cursor.takeComma] using takenMem⟩
  | cons token rest =>
      unfold Cursor.takeComma
      dsimp only
      split
      · obtain ⟨here, restWithin⟩ := span_mem_of_cons_subset within
        refine ⟨restWithin, here, ?_⟩
        rw [Option.toList_some, List.forall_mem_append,
          List.forall_mem_singleton]
        exact ⟨takenMem, here⟩
      · exact ⟨within, placed, by simpa using takenMem⟩

theorem collects_stands (kinds : List TokenKind) (input : List Token) :
    Collects kinds (Stands input) where
  take _ stands := stands.step _ _
  takeComma stands := stands.stepComma
  drop stands :=
    ⟨stands.within, stands.last_mem,
      fun token member => stands.taken_mem token (by simp [member])⟩

/-- A step that resumes on nothing leads behind a token, if there is one. -/
theorem stands_take_nil {cursor : Cursor} (within : cursor.IsWithin input)
    (expected : List TokenKind) (ahead : cursor.isAtEnd = false) :
    Stands input (cursor.take [] expected).2
      ([] ++ [(cursor.take [] expected).1]) := by
  obtain ⟨tokens, last, isReported, found⟩ := cursor
  cases tokens with
  | nil => simp [isAtEnd] at ahead
  | cons token rest =>
      obtain ⟨here, restWithin⟩ := span_mem_of_cons_subset within
      unfold Cursor.take
      rw [takeFrom]
      split
      · exact ⟨restWithin, here, by simpa using here⟩
      · rw [if_neg (by simp)]
        obtain ⟨spanMem, lastMem⟩ := span_mem_takeFrom restWithin [] expected
          here rest.isEmpty (report isReported
            ⟨.unexpectedToken token.kind, token.span⟩ found)
        refine ⟨?_, lastMem, by simpa using spanMem⟩
        exact List.Subset.trans (rest_takeFrom_subset _ _ _ _ _ _) restWithin

end Cursor

/-- Every token of a tree stands at a token of the input. -/
theorem SyntaxTree.span_mem_parseStatements {input : List Token}
    {cursor : Cursor} (within : cursor.IsWithin input) :
    ∀ token ∈ (parseStatements cursor).1.flatMap Statement.tokens,
      token.span ∈ input.map Token.span := by
  fun_induction parseStatements cursor with
  | case1 cursor ahead keyword statement others inductionHypothesis =>
      have first := parseAfterKeyword_collects
        (Cursor.collects_stands statementKeywords input)
        (Cursor.stands_take_nil within statementKeywords ahead)
      rw [List.flatMap_append, List.forall_mem_append]
      exact ⟨first.taken_mem, inductionHypothesis first.within⟩
  | case2 => simp

theorem Parse.span_mem_of_mem_tree {tokens : List Token} {token : Token}
    (member : token ∈ (ofTokens tokens).tree.tokens) :
    token.span ∈ tokens.map Token.span := by
  have within : (Cursor.start (grammatical tokens)).IsWithin tokens :=
    List.filter_subset_self tokens
  exact SyntaxTree.span_mem_parseStatements within token member

end WorkflowLang
