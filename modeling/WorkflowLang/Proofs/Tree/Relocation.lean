import WorkflowLang.Proofs.Tree.Acceptance
import WorkflowLang.Proofs.Tree.Simulation

/-!
# Parsing elsewhere

Only the kinds of tokens have a part in parsing.  Tokens that look alike through
a view which shows their kinds are parsed to trees that look alike through it,
with the same problems (`Parse.resembling`).  So tokens of the same kinds and
texts are parsed to trees that differ in nothing but places.
-/

namespace WorkflowLang

open TokenKind (statementKeywords)

/-- A view shows what kind a token is; and stand-ins look alike that are put in
front of tokens which look alike. -/
structure Token.ShowsKinds (view : Token → Token) : Prop where
  kind_view : ∀ token, (view token).kind = token.kind
  missing_view : ∀ {first second : Token}, view first = view second →
    view (Token.missing first.span) = view (Token.missing second.span)

theorem Token.showsKinds_unplaced : Token.ShowsKinds Token.unplaced where
  kind_view _ := rfl
  missing_view _ := rfl

namespace Cursor

/-- Two cursors in front of tokens that look alike, after the same problems. -/
structure Resembles (view : Token → Token) (first second : Cursor) :
    Prop where
  rest_eq : first.rest.map view = second.rest.map view
  last_eq : view (Token.missing first.last) = view (Token.missing second.last)
  isReported_eq : first.isReported = second.isReported
  problems_eq : first.reports.map Diagnostic.problem =
    second.reports.map Diagnostic.problem

variable {view : Token → Token}

/-- What is ahead of two cursors that resemble each other. -/
theorem Resembles.cases_rest {first second : Cursor}
    (alike : first.Resembles view second) :
    (first.rest = [] ∧ second.rest = []) ∨
      ∃ token tokens other others, first.rest = token :: tokens ∧
        second.rest = other :: others ∧ view token = view other ∧
          tokens.map view = others.map view := by
  have ahead := alike.rest_eq
  cases firstRest : first.rest with
  | nil =>
      rw [firstRest] at ahead
      exact Or.inl ⟨rfl, List.map_eq_nil_iff.mp ahead.symm⟩
  | cons token tokens =>
      cases secondRest : second.rest with
      | nil => simp [firstRest, secondRest] at ahead
      | cons other others =>
          rw [firstRest, secondRest, List.map_cons, List.map_cons,
            List.cons.injEq] at ahead
          exact Or.inr ⟨token, tokens, other, others, rfl, rfl, ahead⟩

theorem map_problem_report (isReported : Bool) (diagnostic : Diagnostic)
    (reports : List Diagnostic) :
    (report isReported diagnostic reports).map Diagnostic.problem =
      if isReported then reports.map Diagnostic.problem
      else diagnostic.problem :: reports.map Diagnostic.problem := by
  unfold report
  split <;> rfl

theorem isEmpty_eq_of_map_eq {first second : List Token}
    (same : first.map view = second.map view) :
    first.isEmpty = second.isEmpty := by
  rw [Bool.eq_iff_iff, List.isEmpty_iff, List.isEmpty_iff,
    ← List.map_eq_nil_iff, same, List.map_eq_nil_iff]

section

variable (shows : Token.ShowsKinds view)

include shows

theorem kind_eq_of_view_eq {first second : Token}
    (same : view first = view second) : first.kind = second.kind := by
  rw [← shows.kind_view first, same, shows.kind_view]

theorem resembles_takeFrom (resumable expected : List TokenKind)
    {tokens others : List Token} (same : tokens.map view = others.map view)
    {last otherLast : Span}
    (sameLast : view (Token.missing last) = view (Token.missing otherLast))
    (isReported : Bool) {reports otherReports : List Diagnostic}
    (problems : reports.map Diagnostic.problem =
      otherReports.map Diagnostic.problem) :
    view (takeFrom resumable expected last isReported reports tokens).1 =
        view (takeFrom resumable expected otherLast isReported otherReports
          others).1 ∧
      (takeFrom resumable expected last isReported reports
        tokens).2.Resembles view
          (takeFrom resumable expected otherLast isReported otherReports
            others).2 := by
  induction tokens generalizing others last otherLast isReported reports
      otherReports with
  | nil =>
      obtain rfl := List.map_eq_nil_iff.mp same.symm
      refine ⟨sameLast, rfl, sameLast, rfl, ?_⟩
      simp [takeFrom, map_problem_report, problems]
  | cons token rest inductionHypothesis =>
      cases others with
      | nil => simp at same
      | cons other otherRest =>
          rw [List.map_cons, List.map_cons, List.cons.injEq] at same
          obtain ⟨sameToken, sameRest⟩ := same
          have sameKind := kind_eq_of_view_eq shows sameToken
          have samePlace := shows.missing_view sameToken
          simp only [takeFrom, ← sameKind]
          split
          · refine ⟨sameToken, sameRest, samePlace, ?_, problems⟩
            rw [isEmpty_eq_of_map_eq sameRest]
          · split
            · refine ⟨samePlace, ?_, sameLast, rfl, ?_⟩
              · simp [sameToken, sameRest]
              · simp [map_problem_report, problems]
            · rw [isEmpty_eq_of_map_eq sameRest]
              refine inductionHypothesis sameRest samePlace _ ?_
              simp [map_problem_report, problems]

theorem Resembles.take {first second : Cursor}
    (alike : first.Resembles view second)
    (resumable expected : List TokenKind) :
    view (first.take resumable expected).1 =
        view (second.take resumable expected).1 ∧
      (first.take resumable expected).2.Resembles view
        (second.take resumable expected).2 := by
  unfold Cursor.take
  rw [alike.isReported_eq]
  exact resembles_takeFrom shows resumable expected alike.rest_eq
    alike.last_eq _ alike.problems_eq

omit shows in
theorem Resembles.isAtEnd_eq {first second : Cursor}
    (alike : first.Resembles view second) :
    first.isAtEnd = second.isAtEnd :=
  isEmpty_eq_of_map_eq alike.rest_eq

/-- All steps of the parser keep the resemblance. -/
theorem simulation_of_resembles :
    Simulation view (Cursor.Resembles view) where
  kind_view := shows.kind_view
  take _ alike := alike.take shows _ _
  takeComma := by
    intro first second alike
    unfold Cursor.takeComma
    rcases alike.cases_rest with ⟨nothing, noOther⟩ |
      ⟨token, tokens, other, others, ahead, otherAhead, same, rest⟩
    · rw [nothing, noOther]
      exact ⟨rfl, alike⟩
    · rw [ahead, otherAhead]
      simp only [kind_eq_of_view_eq shows same]
      split
      · refine ⟨congrArg some same, rest, shows.missing_view same, ?_,
          alike.problems_eq⟩
        rw [alike.isReported_eq, isEmpty_eq_of_map_eq rest]
      · exact ⟨rfl, alike⟩
  isNext_eq := by
    intro first second kind alike _
    unfold Cursor.isNext
    rcases alike.cases_rest with ⟨nothing, noOther⟩ |
      ⟨token, tokens, other, others, ahead, otherAhead, same, _⟩
    · rw [nothing, noOther]
    · simp [ahead, otherAhead, kind_eq_of_view_eq shows same]
  isAtEnd alike atEnd := alike.isAtEnd_eq ▸ atEnd
  gives_up := by
    intro first second _ _ _ alike atEnd ahead
    rw [alike.isAtEnd_eq, atEnd] at ahead
    contradiction

end

end Cursor

namespace SyntaxTree

theorem resembles_parseStatements {view : Token → Token}
    (shows : Token.ShowsKinds view) {first second : Cursor}
    (alike : first.Resembles view second) :
    (parseStatements first).1.map (Statement.mapTokens view) =
        (parseStatements second).1.map (Statement.mapTokens view) ∧
      (parseStatements first).2.Resembles view
        (parseStatements second).2 := by
  induction length_eq : first.rest.length using Nat.strongRecOn
    generalizing first second with
  | ind size inductionHypothesis =>
      rw [parseStatements, parseStatements]
      by_cases ahead : first.isAtEnd = false
      · rw [dif_pos ahead, dif_pos (alike.isAtEnd_eq ▸ ahead)]
        obtain ⟨keyword, behindKeyword⟩ :=
          alike.take shows [] statementKeywords
        obtain ⟨statement, behind⟩ :=
          (Cursor.simulation_of_resembles shows).parseAfterKeyword keyword
            behindKeyword
        have shorter := Nat.lt_of_le_of_lt
          (length_rest_parseAfterKeyword_le
            (first.take [] statementKeywords).1
            (first.take [] statementKeywords).2)
          (Cursor.length_rest_take_nil_lt first statementKeywords ahead)
        rw [length_eq] at shorter
        obtain ⟨others, finish⟩ := inductionHypothesis _ shorter behind rfl
        refine ⟨?_, finish⟩
        simp only [List.map_append, ← Option.toList_map, statement, others]
      · rw [dif_neg ahead, dif_neg (alike.isAtEnd_eq ▸ ahead)]
        exact ⟨rfl, alike⟩

end SyntaxTree

namespace Parse

/-- Tokens that look alike are parsed alike. -/
theorem resembling {view : Token → Token} (shows : Token.ShowsKinds view)
    {first second : List Token}
    (same : (grammatical first).map view = (grammatical second).map view) :
    (ofTokens first).tree.mapTokens view =
        (ofTokens second).tree.mapTokens view ∧
      (ofTokens first).diagnostics.map Diagnostic.problem =
        (ofTokens second).diagnostics.map Diagnostic.problem := by
  have start : (Cursor.start (grammatical first)).Resembles view
      (Cursor.start (grammatical second)) :=
    ⟨same, rfl, Cursor.isEmpty_eq_of_map_eq same, rfl⟩
  obtain ⟨statements, finish⟩ :=
    SyntaxTree.resembles_parseStatements shows start
  refine ⟨congrArg SyntaxTree.mk statements, ?_⟩
  have problems := finish.problems_eq
  simp only [ofTokens, List.map_reverse]
  exact congrArg List.reverse problems

/-- Tokens of the same kinds and texts are parsed alike. -/
theorem relocated {first second : List Token}
    (same : (grammatical first).map Token.unplaced =
      (grammatical second).map Token.unplaced) :
    (ofTokens first).tree.mapTokens Token.unplaced =
        (ofTokens second).tree.mapTokens Token.unplaced ∧
      (ofTokens first).diagnostics.map Diagnostic.problem =
        (ofTokens second).diagnostics.map Diagnostic.problem :=
  resembling Token.showsKinds_unplaced same

theorem grammatical_map {view : Token → Token}
    (kind_view : ∀ token, (view token).kind = token.kind)
    (tokens : List Token) :
    grammatical (tokens.map view) = (grammatical tokens).map view := by
  rw [grammatical, grammatical, List.filter_map]
  congr 1
  apply List.filter_congr
  intro token _
  simp [kind_view]

/-- A change of texts is kept by parsing, if doing it again changes nothing. -/
theorem ofTokens_map {view : Token → Token} (shows : Token.ShowsKinds view)
    (again : ∀ token, view (view token) = view token) {tokens : List Token}
    (quiet : (ofTokens tokens).diagnostics = []) :
    (ofTokens (tokens.map view)).diagnostics = [] ∧
      (ofTokens (tokens.map view)).tree =
        (ofTokens tokens).tree.mapTokens view := by
  have ahead := grammatical_map shows.kind_view tokens
  have same : (grammatical (tokens.map view)).map view =
      (grammatical tokens).map view := by
    rw [ahead, List.map_map]
    apply List.map_congr_left
    intro token _
    exact again token
  obtain ⟨trees, problems⟩ := resembling shows same
  rw [quiet, List.map_nil, List.map_eq_nil_iff] at problems
  -- Only the trees as `view` shows them agree so far, but the new tree has no
  -- token that `view` would change.
  have fixed : ∀ token ∈ (ofTokens (tokens.map view)).tree.tokens,
      view token = token := by
    rw [(of_diagnostics_eq_nil problems).1, ahead]
    intro token member
    obtain ⟨original, -, rfl⟩ := List.mem_map.mp member
    exact again original
  refine ⟨problems, ?_⟩
  rw [← trees, SyntaxTree.mapTokens_eq_self fixed]

end Parse

end WorkflowLang
