import WorkflowLang.Proofs.Tree.Reading

/-!
# Acceptance is derivability

A quiet cursor in front of a list the grammar derives passes the list without a
report: where the grammar goes on, no step meets a token that it would skip or
leave to an enclosing construct.  Together with soundness this decides the
language of faultless documents.
-/

namespace WorkflowLang

namespace Cursor

/-- Nothing has been reported, and tokens of the given kinds are ahead. -/
structure Awaits (cursor : Cursor) (kinds : List TokenKind) : Prop where
  isReported_eq : cursor.isReported = false
  reports_eq : cursor.reports = []
  kindsOf_rest : Token.kindsOf cursor.rest = kinds

theorem Awaits.exists_rest {cursor : Cursor} {kind : TokenKind}
    {kinds : List TokenKind} (awaits : cursor.Awaits (kind :: kinds)) :
    ∃ token rest, cursor.rest = token :: rest ∧ token.kind = kind ∧
      Token.kindsOf rest = kinds := by
  have ahead := awaits.kindsOf_rest
  cases tokens : cursor.rest with
  | nil => simp [tokens] at ahead
  | cons token rest =>
      rw [tokens, Token.kindsOf_cons, List.cons.injEq] at ahead
      exact ⟨token, rest, rfl, ahead⟩

theorem Awaits.isAtEnd_eq {cursor : Cursor} {kind : TokenKind}
    {kinds : List TokenKind} (awaits : cursor.Awaits (kind :: kinds)) :
    cursor.isAtEnd = false := by
  obtain ⟨token, rest, tokens, _⟩ := awaits.exists_rest
  simp [isAtEnd, tokens]

theorem Awaits.isNext_eq {cursor : Cursor} {kind : TokenKind}
    {kinds : List TokenKind} (awaits : cursor.Awaits (kind :: kinds))
    (wanted : TokenKind) : cursor.isNext wanted = (kind == wanted) := by
  obtain ⟨token, rest, tokens, tokenKind, _⟩ := awaits.exists_rest
  simp [isNext, tokens, tokenKind]

theorem Awaits.take {cursor : Cursor} {kind : TokenKind}
    {kinds : List TokenKind} (awaits : cursor.Awaits (kind :: kinds))
    (resumable : List TokenKind) {expected : List TokenKind}
    (wanted : kind ∈ expected) :
    (cursor.take resumable expected).1.kind = kind ∧
      (cursor.take resumable expected).2.Awaits kinds := by
  obtain ⟨token, rest, tokens, tokenKind, restKinds⟩ := awaits.exists_rest
  have contained : expected.contains token.kind = true := by
    simpa [tokenKind] using wanted
  unfold Cursor.take
  rw [tokens]
  simp only [takeFrom, if_pos contained]
  refine ⟨tokenKind, ?_, awaits.reports_eq, restKinds⟩
  simp [awaits.isReported_eq]

theorem Awaits.takeComma {cursor : Cursor} {kinds : List TokenKind}
    (awaits : cursor.Awaits (.comma :: kinds)) :
    cursor.takeComma.2.Awaits kinds := by
  obtain ⟨token, rest, tokens, tokenKind, restKinds⟩ := awaits.exists_rest
  unfold Cursor.takeComma
  rw [tokens]
  simp only [if_pos tokenKind]
  refine ⟨?_, awaits.reports_eq, restKinds⟩
  simp [awaits.isReported_eq]

theorem Awaits.takeComma_of_ne {cursor : Cursor} {kind : TokenKind}
    {kinds : List TokenKind} (awaits : cursor.Awaits (kind :: kinds))
    (other : kind ≠ .comma) :
    cursor.takeComma.2.Awaits (kind :: kinds) := by
  obtain ⟨token, rest, tokens, tokenKind, _⟩ := awaits.exists_rest
  unfold Cursor.takeComma
  rw [tokens]
  simpa only [tokenKind, if_neg other] using awaits

theorem Awaits.isBefore_eq {cursor : Cursor} {kind : TokenKind}
    {kinds : List TokenKind} (awaits : cursor.Awaits (kind :: kinds))
    (close : TokenKind) : cursor.isBefore close = (kind == close) := by
  simp [isBefore, awaits.isAtEnd_eq, awaits.isNext_eq]

/-- A piece of a list begins with a token the loop asks for.  Its parser reads
the others when another piece or the closing token follows. -/
structure Passes {Piece : Type} (close : TokenKind)
    (expected : List TokenKind) (parsePiece : Token → Cursor → Piece × Cursor)
    (first : TokenKind) (others : List TokenKind) : Prop where
  mem_expected : first ∈ expected
  awaits : ∀ (token : Token) {cursor : Cursor} {head : TokenKind}
    {after : List TokenKind}, head ∈ expected ∨ head = close →
      cursor.Awaits (others ++ head :: after) →
        (parsePiece token cursor).2.Awaits (head :: after)

/-- A loop in front of pieces the grammar derives reads them all. -/
theorem Repeats.awaits {Piece : Type} {close : TokenKind}
    {resumable expected : List TokenKind}
    {parsePiece : Token → Cursor → Piece × Cursor}
    {Shape : List TokenKind → Prop} (closing : close ∉ expected)
    (missing : TokenKind.missing ∉ expected)
    (passes : ∀ {kinds}, Shape kinds → ∃ first others,
      kinds = first :: others ∧ Passes close expected parsePiece first others)
    {kinds : List TokenKind} (derived : Grammar.Repeated Shape kinds)
    {cursor finish : Cursor} {pieces : List Piece}
    (run : Repeats close resumable expected parsePiece cursor pieces finish)
    {after : List TokenKind}
    (awaits : cursor.Awaits (kinds ++ close :: after)) :
    finish.Awaits (close :: after) := by
  induction derived generalizing cursor pieces with
  | nil =>
      have guard : cursor.isBefore close = true := by
        rw [Awaits.isBefore_eq awaits, beq_self_eq_true]
      cases run with
      | stop _ => exact awaits
      | giveUp notBefore _ => simp [guard] at notBefore
      | piece notBefore _ _ => simp [guard] at notBefore
  | @cons _ others shape derived inductionHypothesis =>
      obtain ⟨first, rest, rfl, piecePasses⟩ := passes shape
      have begins : cursor.Awaits
          (first :: (rest ++ (others ++ close :: after))) := by
        simpa using awaits
      obtain ⟨firstKind, behind⟩ :=
        begins.take resumable piecePasses.mem_expected
      have notBefore : cursor.isBefore close = false := by
        rw [begins.isBefore_eq, beq_eq_false_iff_ne]
        rintro rfl
        exact closing piecePasses.mem_expected
      have present :
          (cursor.take resumable expected).1.isMissing = false := by
        rw [Token.isMissing, firstKind, beq_eq_false_iff_ne]
        rintro rfl
        exact missing piecePasses.mem_expected
      -- Whether a comma is taken depends on what follows the piece.
      have follows : ∃ head tail, others ++ close :: after = head :: tail ∧
          (head ∈ expected ∨ head = close) := by
        cases derived with
        | nil => exact ⟨close, after, rfl, Or.inr rfl⟩
        | cons next _ =>
            obtain ⟨head, _, rfl, nextPasses⟩ := passes next
            exact ⟨head, _, rfl, Or.inl nextPasses.mem_expected⟩
      obtain ⟨head, tail, split, isHead⟩ := follows
      cases run with
      | stop before => simp [notBefore] at before
      | giveUp _ absent => simp [present] at absent
      | piece _ _ run =>
          refine inductionHypothesis run ?_
          rw [split] at behind ⊢
          exact piecePasses.awaits _ isHead behind

end Cursor

namespace SyntaxTree

open TokenKind (statementKeywords propertyKeywords)

theorem item_passes {kinds : List TokenKind} (item : Grammar.Item kinds) :
    ∃ first others, kinds = first :: others ∧
      Cursor.Passes .rightBracket [.string] parseItem first others := by
  cases item with
  | plain =>
      refine ⟨_, _, rfl, List.mem_singleton.mpr rfl, ?_⟩
      intro token cursor head after isHead awaits
      refine awaits.takeComma_of_ne ?_
      rcases isHead with isString | rfl
      · rw [List.mem_singleton.mp isString]
        decide
      · decide
  | separated =>
      exact ⟨_, _, rfl, List.mem_singleton.mpr rfl,
        fun _ _ _ _ _ awaits => Cursor.Awaits.takeComma awaits⟩

theorem parseItems_awaits {items : List TokenKind}
    (derived : Grammar.Repeated Grammar.Item items) {cursor : Cursor}
    {after : List TokenKind}
    (awaits : cursor.Awaits (items ++ .rightBracket :: after)) :
    (parseItems cursor).2.Awaits (.rightBracket :: after) :=
  (parseItems_repeats cursor).awaits (by decide) (by decide) item_passes
    derived awaits

/-- Up to its optional comma, a member has one form. -/
theorem parseMember_of_awaits (name : Token) {cursor : Cursor}
    {kinds : List TokenKind}
    (awaits : cursor.Awaits (.equal :: .string :: kinds)) :
    ∃ last : Cursor, last.Awaits kinds ∧
      (parseMember name cursor).2 = last.takeComma.2 := by
  obtain ⟨_, behindEqual⟩ :=
    awaits.take memberResumable (List.mem_singleton.mpr rfl)
  obtain ⟨_, behindValue⟩ :=
    behindEqual.take memberResumable (List.mem_singleton.mpr rfl)
  exact ⟨_, behindValue, rfl⟩

theorem member_passes {kinds : List TokenKind}
    (member : Grammar.Member kinds) :
    ∃ first others, kinds = first :: others ∧
      Cursor.Passes .rightBrace [.identifier] parseMember first others := by
  cases member with
  | plain =>
      refine ⟨_, _, rfl, List.mem_singleton.mpr rfl, ?_⟩
      intro token cursor head after isHead awaits
      obtain ⟨last, behind, comma⟩ := parseMember_of_awaits token awaits
      rw [comma]
      refine Cursor.Awaits.takeComma_of_ne behind ?_
      rcases isHead with isName | rfl
      · rw [List.mem_singleton.mp isName]
        decide
      · decide
  | separated =>
      refine ⟨_, _, rfl, List.mem_singleton.mpr rfl, ?_⟩
      intro token cursor head after _ awaits
      obtain ⟨last, behind, comma⟩ := parseMember_of_awaits token awaits
      rw [comma]
      exact Cursor.Awaits.takeComma behind

theorem parseMembers_awaits {members : List TokenKind}
    (derived : Grammar.Repeated Grammar.Member members) {cursor : Cursor}
    {after : List TokenKind}
    (awaits : cursor.Awaits (members ++ .rightBrace :: after)) :
    (parseMembers cursor).2.Awaits (.rightBrace :: after) :=
  (parseMembers_repeats cursor).awaits (by decide) (by decide) member_passes
    derived awaits

theorem parseProperty_awaits (key : Token) {value : List TokenKind}
    (derived : Grammar.Value value) {cursor : Cursor}
    {after : List TokenKind}
    (awaits : cursor.Awaits (.equal :: (value ++ after))) :
    (parseProperty key cursor).2.Awaits after := by
  obtain ⟨_, behindEqual⟩ :=
    awaits.take propertyResumable (List.mem_singleton.mpr rfl)
  unfold parseProperty
  cases derived with
  | string =>
      obtain ⟨isString, behind⟩ := Cursor.Awaits.take behindEqual
        propertyResumable
        (show _ ∈ [TokenKind.string, .leftBrace, .leftBracket] by simp)
      simpa [parseValue, isString] using behind
  | array items =>
      rw [List.cons_append, List.append_assoc] at behindEqual
      obtain ⟨opens, behind⟩ := behindEqual.take propertyResumable
        (show _ ∈ [TokenKind.string, .leftBrace, .leftBracket] by simp)
      have atClose := parseItems_awaits items behind
      have closed := (atClose.take propertyResumable
        (List.mem_singleton.mpr rfl)).2
      simpa [parseValue, opens] using closed
  | object members =>
      rw [List.cons_append, List.append_assoc] at behindEqual
      obtain ⟨opens, behind⟩ := behindEqual.take propertyResumable
        (show _ ∈ [TokenKind.string, .leftBrace, .leftBracket] by simp)
      have atClose := parseMembers_awaits members behind
      have closed := (atClose.take propertyResumable
        (List.mem_singleton.mpr rfl)).2
      simpa [parseValue, opens] using closed

theorem property_passes {kinds : List TokenKind}
    (property : Grammar.Property kinds) :
    ∃ first others, kinds = first :: others ∧
      Cursor.Passes .rightBrace propertyKeywords parseProperty first
        others := by
  cases property with
  | definition isKey isValue =>
      exact ⟨_, _, rfl, isKey, fun token _ _ _ _ awaits =>
        parseProperty_awaits token isValue awaits⟩

theorem parseProperties_awaits {properties : List TokenKind}
    (derived : Grammar.Repeated Grammar.Property properties)
    {cursor : Cursor} {after : List TokenKind}
    (awaits : cursor.Awaits (properties ++ .rightBrace :: after)) :
    (parseProperties cursor).2.Awaits (.rightBrace :: after) :=
  (parseProperties_repeats cursor).awaits (by decide) (by decide)
    property_passes derived awaits

theorem parseVersion_awaits (keyword : Token) {cursor : Cursor}
    {after : List TokenKind}
    (awaits : cursor.Awaits (.equal :: .integer :: after)) :
    (parseVersion keyword cursor).2.Awaits after :=
  ((awaits.take statementKeywords (List.mem_singleton.mpr rfl)).2.take
    statementKeywords (List.mem_singleton.mpr rfl)).2

theorem parseBlock_awaits (kind : BlockKind) (keyword : Token)
    {properties : List TokenKind}
    (derived : Grammar.Repeated Grammar.Property properties)
    {cursor : Cursor} {after : List TokenKind}
    (awaits : cursor.Awaits (.string :: .leftBrace ::
      (properties ++ .rightBrace :: after))) :
    (parseBlock kind keyword cursor).2.Awaits after := by
  have opened := ((awaits.take statementKeywords
    (List.mem_singleton.mpr rfl)).2.take statementKeywords
      (List.mem_singleton.mpr rfl)).2
  have atClose := parseProperties_awaits derived opened
  exact (atClose.take statementKeywords (List.mem_singleton.mpr rfl)).2

theorem parseStatements_awaits {kinds : List TokenKind}
    (document : Grammar.Document kinds) {cursor : Cursor}
    (awaits : cursor.Awaits kinds) :
    (parseStatements cursor).2.reports = [] := by
  induction document generalizing cursor with
  | nil =>
      have atEnd : cursor.isAtEnd = true := by
        have ahead := awaits.kindsOf_rest
        simpa [Cursor.isAtEnd, Token.kindsOf] using ahead
      rw [parseStatements]
      simpa [atEnd] using awaits.reports_eq
  | @cons _ others statement _ inductionHypothesis =>
      cases statement with
      | version =>
          have begins : cursor.Awaits
              (.version :: .equal :: .integer :: others) := awaits
          obtain ⟨isVersion, behind⟩ := begins.take []
            (show _ ∈ statementKeywords by decide)
          have next := inductionHypothesis (parseVersion_awaits
            (cursor.take [] statementKeywords).1 behind)
          rw [parseStatements]
          simpa [begins.isAtEnd_eq, parseAfterKeyword, isVersion] using next
      | @block kind properties derived =>
          have begins : cursor.Awaits (kind.keyword :: .string ::
              .leftBrace :: (properties ++ .rightBrace :: others)) := by
            simpa using awaits
          obtain ⟨isKeyword, behind⟩ := begins.take []
            (show kind.keyword ∈ statementKeywords by cases kind <;> decide)
          have next := inductionHypothesis (parseBlock_awaits kind
            (cursor.take [] statementKeywords).1 derived behind)
          rw [parseStatements]
          cases kind <;>
            simpa [begins.isAtEnd_eq, parseAfterKeyword, isKeyword,
              BlockKind.keyword] using next

end SyntaxTree

namespace Parse

open Token (kindsOf)

theorem start_awaits {tokens : List Token} (nonempty : tokens ≠ []) :
    (Cursor.start tokens).Awaits (kindsOf tokens) :=
  ⟨by simpa [Cursor.start] using nonempty, rfl, rfl⟩

/-- What reading a whole list without a report means. -/
theorem of_diagnostics_eq_nil {tokens : List Token}
    (quiet : (Parse.ofTokens tokens).diagnostics = []) :
    (Parse.ofTokens tokens).tree.tokens = grammatical tokens ∧
      Grammar.Document (kindsOf (grammatical tokens)) := by
  have noReports : (SyntaxTree.parseStatements
      (Cursor.start (grammatical tokens))).2.reports = [] :=
    List.reverse_eq_nil_iff.mp quiet
  by_cases empty : grammatical tokens = []
  · have tree : (Parse.ofTokens tokens).tree.tokens = [] := by
      unfold Parse.ofTokens
      change SyntaxTree.tokens ⟨(SyntaxTree.parseStatements
        (Cursor.start (grammatical tokens))).1⟩ = []
      rw [empty, SyntaxTree.parseStatements]
      rfl
    rw [tree, empty]
    exact ⟨rfl, .nil⟩
  · have reads := SyntaxTree.parseStatements_reads
      (Cursor.start (grammatical tokens))
    obtain ⟨_, rest, document⟩ :=
      reads.exact noReports (start_awaits empty).isReported_eq
    rw [SyntaxTree.rest_parseStatements, List.append_nil] at rest
    rw [← rest] at document
    exact ⟨rest.symm, document⟩

/-- Parsing reports nothing exactly on the lists the grammar derives.  Then the
tree is made of those tokens in their order, and none of them stands for an
absent one. -/
theorem diagnostics_eq_nil_iff_derives (tokens : List Token) :
    ((Parse.ofTokens tokens).diagnostics = [] ↔
        Grammar.Document (kindsOf (grammatical tokens))) ∧
      ((Parse.ofTokens tokens).diagnostics = [] →
        (Parse.ofTokens tokens).tree.tokens = grammatical tokens ∧
          ∀ token ∈ (Parse.ofTokens tokens).tree.tokens,
            token.isMissing = false) := by
  refine ⟨⟨fun quiet => (of_diagnostics_eq_nil quiet).2, ?_⟩, ?_⟩
  · intro document
    apply List.reverse_eq_nil_iff.mpr
    by_cases empty : grammatical tokens = []
    · change (SyntaxTree.parseStatements
        (Cursor.start (grammatical tokens))).2.reports = []
      rw [empty, SyntaxTree.parseStatements]
      rfl
    · exact SyntaxTree.parseStatements_awaits document (start_awaits empty)
  · intro quiet
    obtain ⟨tree, document⟩ := of_diagnostics_eq_nil quiet
    refine ⟨tree, fun token member => ?_⟩
    rw [tree] at member
    have present := Grammar.missing_notMem_document document
    by_contra isMissing
    apply present
    have tokenKind : token.kind = .missing := by
      simpa [Token.isMissing] using isMissing
    rw [← tokenKind]
    exact List.mem_map_of_mem member

/-- An action whose environment has one variable and a comma behind it. -/
def environmentTokens : List Token :=
  [.action, .string, .leftBrace, .env, .equal, .leftBrace, .identifier,
    .equal, .string, .comma, .rightBrace, .rightBrace].map
      fun kind => ⟨kind, Span.origin, kind.description⟩

theorem derives_environmentTokens :
    (Parse.ofTokens environmentTokens).diagnostics = [] ∧
      Grammar.Document (kindsOf (grammatical environmentTokens)) ∧
      (Parse.ofTokens environmentTokens).tree.tokens =
        grammatical environmentTokens ∧
      ∀ token ∈ (Parse.ofTokens environmentTokens).tree.tokens,
        token.isMissing = false := by
  have quiet : (Parse.ofTokens environmentTokens).diagnostics = [] := by
    decide +kernel
  obtain ⟨accepted, faithful⟩ :=
    diagnostics_eq_nil_iff_derives environmentTokens
  exact ⟨quiet, accepted.mp quiet, faithful quiet⟩

end Parse

end WorkflowLang
