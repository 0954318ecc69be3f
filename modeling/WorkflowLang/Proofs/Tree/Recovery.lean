import WorkflowLang.Proofs.Tree.Grammar
import WorkflowLang.Proofs.Tree.Simulation

/-!
# Giving up at a statement keyword

No step inside a statement takes a statement keyword, and every such step gives
up at one as it would at the end of the tokens.  So the parser of
`before ++ after`, where a keyword begins `after`, runs beside the parser of
`before` (`Cursor.simulation_of_append`).  The two differ in where they put
stand-ins, at the keyword or at the last token of `before`, and in nothing else.
-/

namespace WorkflowLang

open TokenKind (statementKeywords)

namespace Token

/-- A keyword that begins a statement. -/
def beginsStatement (token : Token) : Bool :=
  statementKeywords.contains token.kind

def keywordsOf (tokens : List Token) : List Token :=
  tokens.filter beginsStatement

end Token

namespace Cursor

open Token (keywordsOf)

/-- Inside a statement a statement keyword is left where it stands. -/
theorem takeFrom_of_beginsStatement {token : Token}
    (keyword : token.beginsStatement = true)
    {resumable expected : List TokenKind}
    (inner : IsInner resumable expected) (last : Span) (isReported : Bool)
    (reports : List Diagnostic) (rest : List Token) :
    takeFrom resumable expected last isReported reports (token :: rest) =
      (Token.missing token.span,
        ⟨token :: rest, last, true,
          report isReported ⟨.missingToken expected false, token.span⟩
            reports⟩) := by
  have member : token.kind ∈ statementKeywords := by
    simpa [Token.beginsStatement] using keyword
  obtain ⟨resumed, unwanted⟩ := inner token.kind member
  rw [takeFrom, if_neg (by simpa using unwanted),
    if_pos (by simpa using resumed)]

/-- Reports have no influence on what is taken. -/
theorem takeFrom_congr (resumable expected : List TokenKind) (last : Span)
    (firstReported secondReported : Bool)
    (firstReports secondReports : List Diagnostic) (tokens : List Token) :
    let first := takeFrom resumable expected last firstReported firstReports
      tokens
    let second := takeFrom resumable expected last secondReported
      secondReports tokens
    first.1 = second.1 ∧ first.2.rest = second.2.rest ∧
      first.2.last = second.2.last := by
  induction tokens generalizing last firstReported secondReported firstReports
      secondReports with
  | nil => exact ⟨rfl, rfl, rfl⟩
  | cons token rest inductionHypothesis =>
      simp only [takeFrom]
      split
      · exact ⟨rfl, rfl, rfl⟩
      · split
        · exact ⟨rfl, rfl, rfl⟩
        · exact inductionHypothesis _ _ _ _ _

/-- The parser is the same from any two cursors at one place. -/
theorem simulation_of_place :
    Simulation id fun first second =>
      first.rest = second.rest ∧ first.last = second.last where
  kind_view _ := rfl
  take := by
    rintro first second resumable expected _ ⟨rest, last⟩
    unfold Cursor.take
    rw [rest, last]
    exact takeFrom_congr _ _ _ _ _ _ _ _
  takeComma := by
    rintro first second ⟨rest, last⟩
    unfold Cursor.takeComma
    rw [rest]
    split
    · exact ⟨rfl, rest, last⟩
    · split
      · exact ⟨rfl, rfl, rfl⟩
      · exact ⟨rfl, rest, last⟩
  isNext_eq := by
    rintro first second kind ⟨rest, _⟩ _
    rw [isNext, isNext, rest]
  isAtEnd := by
    rintro first second ⟨rest, _⟩ atEnd
    rwa [isAtEnd, ← rest]
  gives_up := by
    rintro first second _ _ _ ⟨rest, _⟩ atEnd ahead
    rw [isAtEnd, ← rest] at atEnd
    rw [isAtEnd, atEnd] at ahead
    contradiction

theorem keywordsOf_takeFrom {resumable expected : List TokenKind}
    (inner : IsInner resumable expected) (last : Span) (isReported : Bool)
    (reports : List Diagnostic) (tokens : List Token) :
    keywordsOf (takeFrom resumable expected last isReported reports
      tokens).2.rest = keywordsOf tokens := by
  induction tokens generalizing last isReported reports with
  | nil => rfl
  | cons token rest inductionHypothesis =>
      cases keyword : token.beginsStatement with
      | true => rw [takeFrom_of_beginsStatement keyword inner]
      | false =>
          simp only [takeFrom]
          split
          · simp [keywordsOf, keyword]
          · split
            · rfl
            · rw [inductionHypothesis]
              simp [keywordsOf, keyword]

theorem keywordsOf_takeComma (cursor : Cursor) :
    keywordsOf cursor.takeComma.2.rest = keywordsOf cursor.rest := by
  unfold Cursor.takeComma
  split
  · rfl
  · rename_i token rest tokens
    split
    · rename_i isComma
      rw [tokens]
      simp [keywordsOf, Token.beginsStatement, isComma, statementKeywords]
    · rfl

/-- With a statement keyword behind them, tokens are taken as if they ended
there. -/
theorem takeFrom_append {next : Token}
    (keyword : next.beginsStatement = true)
    {resumable expected : List TokenKind}
    (inner : IsInner resumable expected) (after : List Token)
    (firstLast secondLast : Span) (firstReported secondReported : Bool)
    (firstReports secondReports : List Diagnostic) (tokens : List Token) :
    let first := takeFrom resumable expected firstLast firstReported
      firstReports (tokens ++ next :: after)
    let second := takeFrom resumable expected secondLast secondReported
      secondReports tokens
    first.1.unplacedIfMissing = second.1.unplacedIfMissing ∧
      first.2.rest = second.2.rest ++ next :: after := by
  induction tokens generalizing firstLast secondLast firstReported
      secondReported firstReports secondReports with
  | nil =>
      rw [List.nil_append, takeFrom_of_beginsStatement keyword inner]
      exact ⟨rfl, rfl⟩
  | cons token tokens inductionHypothesis =>
      simp only [List.cons_append, takeFrom]
      split
      · exact ⟨rfl, rfl⟩
      · split
        · exact ⟨rfl, rfl⟩
        · exact inductionHypothesis _ _ _ _ _ _

theorem simulation_of_append {next : Token}
    (keyword : next.beginsStatement = true) (after : List Token) :
    Simulation Token.unplacedIfMissing fun first second =>
      first.rest = second.rest ++ next :: after where
  kind_view := Token.kind_unplacedIfMissing
  take := by
    intro first second resumable expected inner rest
    unfold Cursor.take
    rw [rest]
    exact takeFrom_append keyword inner after _ _ _ _ _ _ _
  takeComma := by
    intro first second rest
    have notComma : next.kind ≠ .comma := by
      intro isComma
      simp [Token.beginsStatement, isComma, statementKeywords] at keyword
    unfold Cursor.takeComma
    cases tokens : second.rest with
    | nil =>
        rw [rest, tokens]
        simp [notComma, rest, tokens]
    | cons token others =>
        rw [rest, tokens]
        simp only [List.cons_append]
        split
        · exact ⟨rfl, rfl⟩
        · exact ⟨rfl, by rw [rest, tokens, List.cons_append]⟩
  isNext_eq := by
    intro first second kind rest notKeyword
    unfold isNext
    rw [rest]
    cases second.rest with
    | nil =>
        have other : next.kind ≠ kind := by
          rintro rfl
          exact notKeyword (by simpa [Token.beginsStatement] using keyword)
        simpa using other
    | cons token others => rfl
  isAtEnd := by
    intro first second rest atEnd
    simp [isAtEnd, rest] at atEnd
  gives_up := by
    intro first second resumable expected inner rest atEnd _
    have nothing : second.rest = [] := by simpa [isAtEnd] using atEnd
    unfold Cursor.take
    rw [rest, nothing, List.nil_append,
      takeFrom_of_beginsStatement keyword inner]
    exact ⟨rfl, rfl⟩

/-- On the top level, tokens before a statement keyword are skipped. -/
theorem takeFrom_skip {skipped : List Token} {next : Token}
    (nothing : Token.keywordsOf skipped = [])
    (keyword : next.beginsStatement = true) (last : Span) (isReported : Bool)
    (reports : List Diagnostic) (rest : List Token) :
    let taken := takeFrom [] statementKeywords last isReported reports
      (skipped ++ next :: rest)
    taken.1 = next ∧ taken.2.rest = rest ∧ taken.2.last = next.span := by
  induction skipped generalizing last isReported reports with
  | nil =>
      have wanted : statementKeywords.contains next.kind = true := keyword
      rw [List.nil_append, takeFrom, if_pos wanted]
      exact ⟨rfl, rfl, rfl⟩
  | cons token skipped inductionHypothesis =>
      rw [keywordsOf, List.filter_cons] at nothing
      split at nothing
      · simp at nothing
      · rename_i other
        have unwanted : ¬statementKeywords.contains token.kind = true := other
        rw [List.cons_append, takeFrom, if_neg unwanted, if_neg (by simp)]
        exact inductionHypothesis nothing _ _ _

/-- Without a statement keyword everything is skipped. -/
theorem takeFrom_skipAll {tokens : List Token}
    (nothing : Token.keywordsOf tokens = []) (last : Span)
    (isReported : Bool) (reports : List Diagnostic) :
    (takeFrom [] statementKeywords last isReported reports
        tokens).1.kind = .missing ∧
      (takeFrom [] statementKeywords last isReported reports
        tokens).2.rest = [] := by
  induction tokens generalizing last isReported reports with
  | nil => exact ⟨rfl, rfl⟩
  | cons token tokens inductionHypothesis =>
      rw [keywordsOf, List.filter_cons] at nothing
      split at nothing
      · simp at nothing
      · rename_i other
        have unwanted : ¬statementKeywords.contains token.kind = true := other
        rw [takeFrom, if_neg unwanted, if_neg (by simp)]
        exact inductionHypothesis nothing _ _ _

end Cursor

namespace Token

/-- Tokens up to the first statement keyword among them. -/
theorem exists_skip_of_keywordsOf_ne_nil {tokens : List Token}
    (present : keywordsOf tokens ≠ []) :
    ∃ skipped next rest, tokens = skipped ++ next :: rest ∧
      keywordsOf skipped = [] ∧ next.beginsStatement = true := by
  induction tokens with
  | nil => exact (present rfl).elim
  | cons token tokens inductionHypothesis =>
      cases keyword : token.beginsStatement with
      | true => exact ⟨[], token, tokens, rfl, rfl, keyword⟩
      | false =>
          have others : keywordsOf tokens ≠ [] := by
            simpa [keywordsOf, keyword] using present
          obtain ⟨skipped, next, rest, rfl, nothing, isKeyword⟩ :=
            inductionHypothesis others
          refine ⟨token :: skipped, next, rest, rfl, ?_, isKeyword⟩
          simpa [keywordsOf, keyword] using nothing

end Token

end WorkflowLang
