import WorkflowLang.Proofs.Tree.Grammar
import WorkflowLang.Proofs.Tree.Repetition

/-!
# Reading without a report

As long as nothing is reported, every step reads exactly the token it returns
(`Cursor.Reads`).  So a tree that was parsed without a report is made of the
tokens in their order, and the grammar derives them.
-/

namespace WorkflowLang

namespace Cursor

/-- What lies between two cursors.  Reports are only added, and as long as there
are none, exactly `tokens` are read and `shape` holds of them. -/
structure Reads (start : Cursor) (tokens : List Token) (shape : Prop)
    (finish : Cursor) : Prop where
  reports_suffix : start.reports <:+ finish.reports
  exact : finish.reports = [] → start.isReported = false →
    finish.isReported = false ∧ start.rest = tokens ++ finish.rest ∧ shape

namespace Reads

theorem refl (cursor : Cursor) {shape : Prop} (holds : shape) :
    Reads cursor [] shape cursor :=
  ⟨List.suffix_rfl, fun _ unreported => ⟨unreported, rfl, holds⟩⟩

theorem trans {start middle finish : Cursor} {before after : List Token}
    {first second : Prop} (reads : Reads start before first middle)
    (goes : Reads middle after second finish) :
    Reads start (before ++ after) (first ∧ second) finish := by
  refine ⟨reads.reports_suffix.trans goes.reports_suffix, ?_⟩
  intro quiet unreported
  have middleQuiet : middle.reports = [] := by
    have suffix := goes.reports_suffix
    rw [quiet] at suffix
    exact List.suffix_nil.mp suffix
  obtain ⟨middleUnreported, startRest, firstHolds⟩ :=
    reads.exact middleQuiet unreported
  obtain ⟨finishUnreported, middleRest, secondHolds⟩ :=
    goes.exact quiet middleUnreported
  refine ⟨finishUnreported, ?_, firstHolds, secondHolds⟩
  rw [startRest, middleRest, List.append_assoc]

theorem imp {start finish : Cursor} {tokens : List Token}
    {shape weaker : Prop} (reads : Reads start tokens shape finish)
    (implied : shape → weaker) : Reads start tokens weaker finish := by
  refine ⟨reads.reports_suffix, fun quiet unreported => ?_⟩
  obtain ⟨finishUnreported, rest, holds⟩ := reads.exact quiet unreported
  exact ⟨finishUnreported, rest, implied holds⟩

/-- A step that returned a stand-in has reported something. -/
theorem of_absurd {start finish : Cursor} {tokens : List Token}
    {shape : Prop} (reads : Reads start tokens shape finish)
    (absurd : ¬shape) (claimed : List Token) (weaker : Prop) :
    Reads start claimed weaker finish :=
  ⟨reads.reports_suffix, fun quiet unreported =>
    (absurd (reads.exact quiet unreported).2.2).elim⟩

end Reads

theorem suffix_report (isReported : Bool) (diagnostic : Diagnostic)
    (reports : List Diagnostic) :
    reports <:+ report isReported diagnostic reports := by
  unfold report
  split
  · exact List.suffix_rfl
  · exact List.suffix_cons _ _

theorem takeFrom_reports_suffix (resumable expected : List TokenKind)
    (last : Span) (isReported : Bool) (reports : List Diagnostic)
    (tokens : List Token) :
    reports <:+
      (takeFrom resumable expected last isReported reports
        tokens).2.reports := by
  induction tokens generalizing last isReported reports with
  | nil => exact suffix_report _ _ _
  | cons token rest inductionHypothesis =>
      simp only [takeFrom]
      split
      · exact List.suffix_rfl
      · split
        · exact suffix_report _ _ _
        · exact (suffix_report _ _ _).trans (inductionHypothesis _ _ _)

/-- Taking a token reads it, unless there is something to report. -/
theorem take_reads (cursor : Cursor) (resumable expected : List TokenKind) :
    Reads cursor [(cursor.take resumable expected).1]
      ((cursor.take resumable expected).1.kind ∈ expected)
      (cursor.take resumable expected).2 := by
  refine ⟨takeFrom_reports_suffix _ _ _ _ _ _, ?_⟩
  intro quiet unreported
  unfold take at quiet ⊢
  rw [unreported] at quiet ⊢
  cases tokens : cursor.rest with
  | nil => simp [tokens, takeFrom, report] at quiet
  | cons token rest =>
      rw [tokens] at quiet
      by_cases wanted : expected.contains token.kind
      · simp only [takeFrom, if_pos wanted]
        exact ⟨rfl, rfl, by simpa using wanted⟩
      · simp only [takeFrom, if_neg wanted] at quiet
        split at quiet
        · simp [report] at quiet
        · have suffix := takeFrom_reports_suffix resumable expected token.span
            rest.isEmpty
            (report false ⟨.unexpectedToken token.kind, token.span⟩
              cursor.reports) rest
          rw [quiet] at suffix
          simp [report] at suffix

theorem takeComma_reads (cursor : Cursor) :
    Reads cursor cursor.takeComma.1.toList
      (∀ comma ∈ cursor.takeComma.1, comma.kind = .comma)
      cursor.takeComma.2 := by
  unfold takeComma
  split
  · exact Reads.refl _ (by simp)
  · rename_i token rest tokens
    split
    · rename_i isComma
      refine ⟨List.suffix_rfl, fun _ unreported => ?_⟩
      exact ⟨by simp [unreported], by simp [tokens], by simp [isComma]⟩
    · exact Reads.refl _ (by simp)

/-- What the loop reads is a list of pieces, if each piece is read as such. -/
theorem Repeats.reads {Piece : Type} {close : TokenKind}
    {resumable expected : List TokenKind}
    {parsePiece : Token → Cursor → Piece × Cursor}
    {tokensOf : Piece → List Token} {Shape : List TokenKind → Prop}
    (missing : TokenKind.missing ∉ expected)
    (parsePiece_reads : ∀ {start : Cursor} {first : Token} {cursor : Cursor},
      Reads start [first] (first.kind ∈ expected) cursor →
        Reads start (tokensOf (parsePiece first cursor).1)
          (Shape (Token.kindsOf (tokensOf (parsePiece first cursor).1)))
          (parsePiece first cursor).2)
    {cursor finish : Cursor} {pieces : List Piece}
    (run : Repeats close resumable expected parsePiece cursor pieces finish) :
    Reads cursor (pieces.flatMap tokensOf)
      (Grammar.Repeated Shape (Token.kindsOf (pieces.flatMap tokensOf)))
      finish := by
  induction run with
  | stop _ => exact Reads.refl _ .nil
  | @giveUp cursor _ absent =>
      refine (take_reads cursor resumable expected).of_absurd ?_ _ _
      intro isExpected
      have kind : (cursor.take resumable expected).1.kind = .missing := by
        simpa [Token.isMissing] using absent
      exact missing (kind ▸ isExpected)
  | @piece cursor _ _ _ _ _ inductionHypothesis =>
      have read := (parsePiece_reads (take_reads cursor resumable
        expected)).trans inductionHypothesis
      refine read.imp ?_
      rintro ⟨isPiece, others⟩
      simpa using Grammar.Repeated.cons isPiece others

end Cursor

namespace SyntaxTree

open Token (kindsOf kindsOf_append)
open TokenKind (statementKeywords propertyKeywords)

theorem item_tokens {item : ArrayItem} (isString : item.value.kind = .string)
    (isComma : ∀ comma ∈ item.comma, comma.kind = .comma) :
    Grammar.Item (kindsOf item.tokens) := by
  cases found : item.comma with
  | none =>
      simpa [ArrayItem.tokens, found, isString] using Grammar.Item.plain
  | some comma =>
      have commaKind : comma.kind = .comma := isComma comma found
      simpa [ArrayItem.tokens, found, isString, commaKind] using
        Grammar.Item.separated

theorem member_tokens {member : ObjectMember}
    (isName : member.name.kind = .identifier)
    (isEqual : member.equal.kind = .equal)
    (isString : member.value.kind = .string)
    (isComma : ∀ comma ∈ member.comma, comma.kind = .comma) :
    Grammar.Member (kindsOf member.tokens) := by
  cases found : member.comma with
  | none =>
      simpa [ObjectMember.tokens, found, isName, isEqual, isString] using
        Grammar.Member.plain
  | some comma =>
      have commaKind : comma.kind = .comma := isComma comma found
      simpa [ObjectMember.tokens, found, isName, isEqual, isString,
        commaKind] using Grammar.Member.separated

theorem parseItem_reads {start : Cursor} {value : Token} {cursor : Cursor}
    (read : Cursor.Reads start [value] (value.kind ∈ [.string]) cursor) :
    Cursor.Reads start (parseItem value cursor).1.tokens
      (Grammar.Item (kindsOf (parseItem value cursor).1.tokens))
      (parseItem value cursor).2 := by
  refine (read.trans (Cursor.takeComma_reads cursor)).imp ?_
  rintro ⟨isString, isComma⟩
  exact item_tokens (List.mem_singleton.mp isString) isComma

theorem parseItems_reads (cursor : Cursor) :
    Cursor.Reads cursor ((parseItems cursor).1.flatMap ArrayItem.tokens)
      (Grammar.Repeated Grammar.Item
        (kindsOf ((parseItems cursor).1.flatMap ArrayItem.tokens)))
      (parseItems cursor).2 :=
  (parseItems_repeats cursor).reads (by decide) parseItem_reads

theorem parseMember_reads {start : Cursor} {name : Token} {cursor : Cursor}
    (read : Cursor.Reads start [name] (name.kind ∈ [.identifier]) cursor) :
    Cursor.Reads start (parseMember name cursor).1.tokens
      (Grammar.Member (kindsOf (parseMember name cursor).1.tokens))
      (parseMember name cursor).2 := by
  have reads := ((read.trans (Cursor.take_reads cursor memberResumable
    [.equal])).trans (Cursor.take_reads _ memberResumable [.string])).trans
      (Cursor.takeComma_reads _)
  refine reads.imp ?_
  rintro ⟨⟨⟨isName, isEqual⟩, isString⟩, isComma⟩
  simp only [List.mem_singleton] at isName isEqual isString
  exact member_tokens isName isEqual isString isComma

theorem parseMembers_reads (cursor : Cursor) :
    Cursor.Reads cursor ((parseMembers cursor).1.flatMap ObjectMember.tokens)
      (Grammar.Repeated Grammar.Member
        (kindsOf ((parseMembers cursor).1.flatMap ObjectMember.tokens)))
      (parseMembers cursor).2 :=
  (parseMembers_repeats cursor).reads (by decide) parseMember_reads

theorem parseValue_reads {start : Cursor} {first : Token} {cursor : Cursor}
    (read : Cursor.Reads start [first]
      (first.kind ∈ [.string, .leftBrace, .leftBracket]) cursor) :
    Cursor.Reads start (parseValue first cursor).1.tokens
      (Grammar.Value (kindsOf (parseValue first cursor).1.tokens))
      (parseValue first cursor).2 := by
  unfold parseValue
  split
  · rename_i opens
    have reads := (read.trans (parseItems_reads cursor)).trans
      (Cursor.take_reads _ propertyResumable [.rightBracket])
    refine reads.imp ?_
    rintro ⟨⟨_, items⟩, closes⟩
    simp only [List.mem_singleton] at closes
    simpa [PropertyValue.tokens, opens, closes] using Grammar.Value.array items
  · rename_i opens
    have reads := (read.trans (parseMembers_reads cursor)).trans
      (Cursor.take_reads _ propertyResumable [.rightBrace])
    refine reads.imp ?_
    rintro ⟨⟨_, members⟩, closes⟩
    simp only [List.mem_singleton] at closes
    simpa [PropertyValue.tokens, opens, closes] using
      Grammar.Value.object members
  · rename_i notBracket notBrace
    refine read.imp ?_
    intro begins
    have isString : first.kind = .string := by
      simp only [List.mem_cons, List.not_mem_nil, or_false] at begins
      rcases begins with isString | isBrace | isBracket
      · exact isString
      · exact (notBrace isBrace).elim
      · exact (notBracket isBracket).elim
    simpa [PropertyValue.tokens, isString] using Grammar.Value.string

theorem parseProperty_reads {start : Cursor} {key : Token} {cursor : Cursor}
    (read : Cursor.Reads start [key] (key.kind ∈ propertyKeywords) cursor) :
    Cursor.Reads start (parseProperty key cursor).1.tokens
      (Grammar.Property (kindsOf (parseProperty key cursor).1.tokens))
      (parseProperty key cursor).2 := by
  have reads := (read.trans (Cursor.take_reads cursor propertyResumable
    [.equal])).trans (parseValue_reads (Cursor.take_reads _ propertyResumable
      [.string, .leftBrace, .leftBracket]))
  refine reads.imp ?_
  rintro ⟨⟨isKey, isEqual⟩, isValue⟩
  simp only [List.mem_singleton] at isEqual
  simpa [parseProperty, Property.tokens, isEqual] using
    Grammar.Property.definition isKey isValue

theorem parseProperties_reads (cursor : Cursor) :
    Cursor.Reads cursor ((parseProperties cursor).1.flatMap Property.tokens)
      (Grammar.Repeated Grammar.Property
        (kindsOf ((parseProperties cursor).1.flatMap Property.tokens)))
      (parseProperties cursor).2 :=
  (parseProperties_repeats cursor).reads (by decide) parseProperty_reads

theorem parseVersion_reads {start : Cursor} {keyword : Token}
    {cursor : Cursor}
    (read : Cursor.Reads start [keyword] (keyword.kind = .version) cursor) :
    Cursor.Reads start (parseVersion keyword cursor).1.tokens
      (Grammar.Statement (kindsOf (parseVersion keyword cursor).1.tokens))
      (parseVersion keyword cursor).2 := by
  have reads := (read.trans (Cursor.take_reads cursor statementKeywords
    [.equal])).trans (Cursor.take_reads _ statementKeywords [.integer])
  refine reads.imp ?_
  rintro ⟨⟨isKeyword, isEqual⟩, isInteger⟩
  simp only [List.mem_singleton] at isEqual isInteger
  simpa [parseVersion, VersionStatement.tokens, isKeyword, isEqual,
    isInteger] using Grammar.Statement.version

theorem parseBlock_reads {start : Cursor} (kind : BlockKind)
    {keyword : Token} {cursor : Cursor}
    (read : Cursor.Reads start [keyword] (keyword.kind = kind.keyword)
      cursor) :
    Cursor.Reads start (parseBlock kind keyword cursor).1.tokens
      (Grammar.Statement (kindsOf (parseBlock kind keyword cursor).1.tokens))
      (parseBlock kind keyword cursor).2 := by
  have reads := ((((read.trans (Cursor.take_reads cursor statementKeywords
    [.string])).trans (Cursor.take_reads _ statementKeywords
      [.leftBrace])).trans (parseProperties_reads _)).trans
        (Cursor.take_reads _ statementKeywords [.rightBrace]))
  refine reads.imp ?_
  rintro ⟨⟨⟨⟨isKeyword, isName⟩, opens⟩, properties⟩, closes⟩
  simp only [List.mem_singleton] at isName opens closes
  simpa [parseBlock, Block.tokens, isKeyword, isName, opens, closes] using
    Grammar.Statement.block kind properties

theorem parseAfterKeyword_reads {start : Cursor} {keyword : Token}
    {cursor : Cursor}
    (read : Cursor.Reads start [keyword] (keyword.kind ∈ statementKeywords)
      cursor) :
    Cursor.Reads start
      ((parseAfterKeyword keyword cursor).1.toList.flatMap Statement.tokens)
      (Grammar.Document
        (kindsOf ((parseAfterKeyword keyword cursor).1.toList.flatMap
          Statement.tokens)))
      (parseAfterKeyword keyword cursor).2 := by
  have alone {kinds : List TokenKind} (statement : Grammar.Statement kinds) :
      Grammar.Document kinds := by
    simpa [Grammar.Document] using Grammar.Repeated.cons statement .nil
  unfold parseAfterKeyword
  split
  · rename_i isVersion
    have reads := parseVersion_reads (read.imp fun _ => isVersion)
    simpa [Statement.tokens] using reads.imp alone
  · rename_i isWorkflow
    have reads := parseBlock_reads .workflow (read.imp fun _ => isWorkflow)
    simpa [Statement.tokens] using reads.imp alone
  · rename_i isAction
    have reads := parseBlock_reads .action (read.imp fun _ => isAction)
    simpa [Statement.tokens] using reads.imp alone
  · rename_i notVersion notWorkflow notAction
    refine read.of_absurd ?_ _ _
    intro isKeyword
    simp only [statementKeywords, List.mem_cons, List.not_mem_nil,
      or_false] at isKeyword
    rcases isKeyword with isVersion | isWorkflow | isAction
    · exact notVersion isVersion
    · exact notWorkflow isWorkflow
    · exact notAction isAction

theorem parseStatements_reads (cursor : Cursor) :
    Cursor.Reads cursor ((parseStatements cursor).1.flatMap Statement.tokens)
      (Grammar.Document
        (kindsOf ((parseStatements cursor).1.flatMap Statement.tokens)))
      (parseStatements cursor).2 := by
  fun_induction parseStatements cursor with
  | case1 cursor _ keyword statement _ inductionHypothesis =>
      have reads := (parseAfterKeyword_reads (Cursor.take_reads cursor []
        statementKeywords)).trans inductionHypothesis
      rw [List.flatMap_append, kindsOf_append]
      exact reads.imp fun ⟨first, others⟩ =>
        Grammar.append_document first others
  | case2 cursor => exact Cursor.Reads.refl _ .nil

theorem rest_parseStatements (cursor : Cursor) :
    (parseStatements cursor).2.rest = [] := by
  fun_induction parseStatements cursor with
  | case1 _ _ _ _ _ inductionHypothesis => exact inductionHypothesis
  | case2 cursor atEnd => simpa [Cursor.isAtEnd] using atEnd

end SyntaxTree

end WorkflowLang
