import WorkflowLang.Proofs.Compilation.Reports
import WorkflowLang.Proofs.Token.Faults
import WorkflowLang.Proofs.Tree.Simulation

/-!
# Syntax errors

Every report of scanning and parsing is a syntax error, and no report of binding
or of the checks is one.  A compilation is therefore free of syntax errors
exactly when its text was scanned and parsed without a report
(`Compilation.hasSyntaxErrors_eq_false_iff`).
-/

namespace WorkflowLang

namespace Diagnostic

/-- All of some reports are syntax errors. -/
def AllSyntactic (diagnostics : List Diagnostic) : Prop :=
  ∀ diagnostic ∈ diagnostics, diagnostic.problem.isSyntaxError = true

@[simp] theorem allSyntactic_nil : AllSyntactic [] := by
  simp [AllSyntactic]

@[simp] theorem allSyntactic_cons (diagnostic : Diagnostic)
    (others : List Diagnostic) :
    AllSyntactic (diagnostic :: others) ↔
      diagnostic.problem.isSyntaxError = true ∧ AllSyntactic others := by
  simp [AllSyntactic]

@[simp] theorem allSyntactic_append (first second : List Diagnostic) :
    AllSyntactic (first ++ second) ↔
      AllSyntactic first ∧ AllSyntactic second := by
  simp [AllSyntactic, or_imp, forall_and]

theorem AllSyntactic.any_isSyntaxError {diagnostics : List Diagnostic}
    (all : AllSyntactic diagnostics) :
    diagnostics.any (fun diagnostic => diagnostic.problem.isSyntaxError) =
        false ↔
      diagnostics = [] := by
  cases diagnostics with
  | nil => simp
  | cons diagnostic others =>
      simp [((allSyntactic_cons _ _).mp all).1]

/-- Reports of the stages behind parsing are no syntax errors. -/
theorem AllFrom.any_isSyntaxError {lowest highest : Nat} {places : List Span}
    {diagnostics : List Diagnostic}
    (all : AllFrom lowest highest places diagnostics) (behind : 6 ≤ lowest) :
    diagnostics.any (fun diagnostic => diagnostic.problem.isSyntaxError) =
      false := by
  rw [List.any_eq_false]
  intro diagnostic member
  have isNumbered := (all diagnostic member).isNumbered
  simp only [Problem.isNumbered, Bool.and_eq_true, decide_eq_true_eq]
    at isNumbered
  simp only [Problem.isSyntaxError, decide_eq_true_eq]
  omega

theorem AllSyntactic.filter_isNumbered_eq_nil {diagnostics : List Diagnostic}
    (all : AllSyntactic diagnostics) {first last : Nat} (behind : 6 ≤ first) :
    diagnostics.filter (fun diagnostic =>
      diagnostic.problem.isNumbered first last) = [] := by
  refine List.filter_eq_nil_iff.mpr fun diagnostic member numbered => ?_
  have early := all diagnostic member
  simp only [Problem.isSyntaxError, Problem.isNumbered, Bool.and_eq_true,
    decide_eq_true_eq] at early numbered
  omega

end Diagnostic

open Diagnostic (AllSyntactic)

theorem StringPiece.allSyntactic_faults (place : Position)
    (pieces : List StringPiece) : AllSyntactic (faults place pieces) := by
  induction pieces generalizing place with
  | nil => exact Diagnostic.allSyntactic_nil
  | cons piece others inductionHypothesis =>
      refine (Diagnostic.allSyntactic_append _ _).mpr
        ⟨?_, inductionHypothesis _⟩
      cases piece with
      | escape escaped =>
          rw [fault?]
          split <;> simp [Problem.isSyntaxError, Problem.code]
      | plain character =>
          rw [fault?]
          split <;> simp [Problem.isSyntaxError, Problem.code]

theorem Token.allSyntactic_faults (token : Token) :
    AllSyntactic token.faults := by
  unfold faults
  split
  · simp [AllSyntactic, Problem.isSyntaxError, Problem.code]
  · refine (Diagnostic.allSyntactic_append _ _).mpr
      ⟨StringPiece.allSyntactic_faults _ _, ?_⟩
    split <;> simp [Problem.isSyntaxError, Problem.code]
  · exact Diagnostic.allSyntactic_nil

theorem Scan.allSyntactic_scanFrom (position : Position)
    (text : List Char) :
    AllSyntactic (scanFrom position text).diagnostics := by
  intro diagnostic member
  rw [diagnostics_scanFrom, List.mem_flatMap] at member
  obtain ⟨token, -, isFault⟩ := member
  exact token.allSyntactic_faults diagnostic isFault

namespace Cursor

theorem allSyntactic_report {isReported : Bool} {diagnostic : Diagnostic}
    {reports : List Diagnostic}
    (isError : diagnostic.problem.isSyntaxError = true)
    (all : AllSyntactic reports) :
    AllSyntactic (report isReported diagnostic reports) := by
  unfold report
  split
  · exact all
  · exact (Diagnostic.allSyntactic_cons _ _).mpr ⟨isError, all⟩

theorem allSyntactic_takeFrom (resumable expected : List TokenKind)
    (last : Span) (isReported : Bool) {reports : List Diagnostic}
    (all : AllSyntactic reports) (tokens : List Token) :
    AllSyntactic
      (takeFrom resumable expected last isReported reports
        tokens).2.reports := by
  induction tokens generalizing last isReported reports with
  | nil => exact allSyntactic_report rfl all
  | cons token rest inductionHypothesis =>
      simp only [takeFrom]
      split
      · exact all
      · split
        · exact allSyntactic_report rfl all
        · exact inductionHypothesis _ _ (allSyntactic_report rfl all)

theorem allSyntactic_takeComma {cursor : Cursor}
    (all : AllSyntactic cursor.reports) :
    AllSyntactic cursor.takeComma.2.reports := by
  unfold Cursor.takeComma
  split
  · exact all
  · split
    · exact all
    · exact all

end Cursor

theorem SyntaxTree.allSyntactic_parseStatements {cursor : Cursor}
    (all : AllSyntactic cursor.reports) :
    AllSyntactic (parseStatements cursor).2.reports := by
  fun_induction parseStatements cursor with
  | case1 cursor ahead keyword statement others inductionHypothesis =>
      refine inductionHypothesis ?_
      refine Simulation.invariant_parseAfterKeyword
        (fun cursor => AllSyntactic cursor.reports)
        (fun {cursor _ _} _ kept => ?_) (fun kept => ?_) keyword.1 ?_
      · exact Cursor.allSyntactic_takeFrom _ _ _ _ kept _
      · exact Cursor.allSyntactic_takeComma kept
      · exact Cursor.allSyntactic_takeFrom _ _ _ _ all _
  | case2 => exact all

theorem Parse.allSyntactic_diagnostics (tokens : List Token) :
    AllSyntactic (ofTokens tokens).diagnostics := by
  intro diagnostic member
  refine SyntaxTree.allSyntactic_parseStatements ?_ diagnostic
    (List.mem_reverse.mp member)
  simp [Cursor.start]

/-- A text has no syntax errors when scanning and parsing report nothing. -/
theorem Compilation.hasSyntaxErrors_eq_false_iff (text : String) :
    (ofText text).hasSyntaxErrors = false ↔
      (Scan.ofText text).diagnostics = [] ∧
        (Parse.ofTokens (Scan.ofText text).tokens).diagnostics = [] := by
  have scanned : AllSyntactic (Scan.ofText text).diagnostics :=
    Scan.allSyntactic_scanFrom _ _
  have parsed := Parse.allSyntactic_diagnostics (Scan.ofText text).tokens
  have placed := Token.allAt_self
    (Parse.ofTokens (Scan.ofText text).tokens).tree.tokens
  have bound := SyntaxTree.allFrom_bindingDiagnostics placed
  have checked := Document.allFrom_checkDiagnostics
    (Document.standsAt_ofTree placed)
  rw [← scanned.any_isSyntaxError, ← parsed.any_isSyntaxError]
  simp only [hasSyntaxErrors, ofText, List.any_append,
    bound.any_isSyntaxError (by decide), checked.any_isSyntaxError (by decide),
    Bool.or_false, Bool.or_eq_false_iff]

end WorkflowLang
