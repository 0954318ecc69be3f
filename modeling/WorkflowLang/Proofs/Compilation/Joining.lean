import WorkflowLang.Proofs.Compilation.SyntaxErrors
import WorkflowLang.Proofs.Token.LineBreaks
import WorkflowLang.Proofs.Tree.Shape

/-!
# Texts joined by line feeds

A line feed ends every token, and a statement keyword every statement.  So texts
without syntax errors may be written below each other: the joined text has no
syntax errors either, and its statements are those of the texts, one text after the
other (`Compilation.statements_joined`).
-/

namespace WorkflowLang

theorem Statement.map_unplaced_eq_of_unplacedIfMissing
    {first second : List Statement}
    (same : first.map (mapTokens Token.unplacedIfMissing) =
      second.map (mapTokens Token.unplacedIfMissing)) :
    first.map (mapTokens Token.unplaced) =
      second.map (mapTokens Token.unplaced) := by
  have forgets : Token.unplaced ∘ Token.unplacedIfMissing =
      Token.unplaced := by
    funext token
    rw [Function.comp_apply, Token.unplacedIfMissing]
    split <;> rfl
  have again : mapTokens Token.unplaced ∘ mapTokens Token.unplacedIfMissing =
      mapTokens Token.unplaced := by
    funext statement
    rw [Function.comp_apply, mapTokens_mapTokens, forgets]
  have unplaced := congrArg (List.map (mapTokens Token.unplaced)) same
  rwa [List.map_map, List.map_map, again] at unplaced

/-! ## Scanning -/

namespace Compilation

variable {first second : String}

/-- Scanning two texts with a line feed between them finds the tokens of both. -/
theorem scan_joined (clean : (ofText first).hasSyntaxErrors = false)
    (secondClean : (ofText second).hasSyntaxErrors = false) :
    (Scan.ofText (first ++ "\n" ++ second)).diagnostics = [] ∧
      (Scan.ofText (first ++ "\n" ++ second)).tokens.map Token.unplaced =
        ((Scan.ofText first).tokens ++ (Scan.ofText second).tokens).map
          Token.unplaced := by
  obtain ⟨count, tokens, reports⟩ := Scan.exists_joined first second
  have quiet := ((hasSyntaxErrors_eq_false_iff first).mp clean).1
  have secondQuiet := ((hasSyntaxErrors_eq_false_iff second).mp secondClean).1
  constructor
  · rw [reports, quiet, secondQuiet]
    rfl
  · rw [tokens, List.map_append, List.map_append, List.map_map]
    rfl

end Compilation

/-! ## Parsing -/

namespace Parse

open Token (kindsOf)
open TokenKind (statementKeywords)

theorem diagnostics_eq_nil_of_derives {tokens : List Token}
    (document : Grammar.Document (kindsOf (grammatical tokens))) :
    (ofTokens tokens).diagnostics = [] := by
  apply List.reverse_eq_nil_iff.mpr
  by_cases empty : grammatical tokens = []
  · change (SyntaxTree.parseStatements
      (Cursor.start (grammatical tokens))).2.reports = []
    rw [empty, SyntaxTree.parseStatements]
    rfl
  · exact SyntaxTree.parseStatements_awaits document (start_awaits empty)

/-- A document begins with a statement keyword, if it is not empty. -/
theorem beginsStatement_of_document {next : Token} {rest : List Token}
    (document : Grammar.Document (kindsOf (next :: rest))) :
    next.beginsStatement = true := by
  have isKeyword : next.kind ∈ statementKeywords := by
    rw [Token.kindsOf_cons] at document
    generalize ahead : next.kind :: kindsOf rest = kinds at document
    cases document with
    | nil => contradiction
    | cons statement _ =>
        cases statement with
        | version =>
            rw [(List.cons.inj ahead).1]
            decide
        | block kind _ =>
            rw [(List.cons.inj ahead).1]
            cases kind <;> decide
  simpa [Token.beginsStatement] using isKeyword

variable {first second : List Token}

theorem diagnostics_append (quiet : (ofTokens first).diagnostics = [])
    (secondQuiet : (ofTokens second).diagnostics = []) :
    (ofTokens (first ++ second)).diagnostics = [] := by
  apply diagnostics_eq_nil_of_derives
  rw [grammatical, List.filter_append, Token.kindsOf_append]
  exact Grammar.append_document (of_diagnostics_eq_nil quiet).2
    (of_diagnostics_eq_nil secondQuiet).2

theorem grammatical_append (first second : List Token) :
    grammatical (first ++ second) = grammatical first ++ grammatical second :=
  List.filter_append ..

/-- The statements of faultless tokens follow those of the tokens before them. -/
theorem statements_append (first : List Token)
    (secondQuiet : (ofTokens second).diagnostics = []) :
    ((ofTokens (first ++ second)).tree.mapTokens Token.unplaced).statements =
      ((ofTokens first).tree.mapTokens Token.unplaced).statements ++
        ((ofTokens second).tree.mapTokens Token.unplaced).statements := by
  have document := (of_diagnostics_eq_nil secondQuiet).2
  simp only [SyntaxTree.mapTokens, statements_ofTokens, grammatical_append]
  cases ahead : grammatical second with
  | nil =>
      have nothing : SyntaxTree.statementsOf [] = [] :=
        SyntaxTree.statementsOf_skipAll rfl
      rw [nothing, List.append_nil, List.map_nil, List.append_nil]
  | cons next rest =>
      rw [ahead] at document
      obtain ⟨front, statements, alike⟩ := SyntaxTree.statementsOf_append
        (grammatical first) (beginsStatement_of_document document) rest
      rw [statements, List.map_append,
        Statement.map_unplaced_eq_of_unplacedIfMissing alike]

end Parse

namespace Compilation

/-- The statements of a text without their places. -/
def unplacedStatements (text : String) : List Statement :=
  ((ofText text).tree.mapTokens Token.unplaced).statements

/-- Two texts without syntax errors may be written below each other. -/
theorem unplacedStatements_append {first second : String}
    (clean : (ofText first).hasSyntaxErrors = false)
    (secondClean : (ofText second).hasSyntaxErrors = false) :
    (ofText (first ++ "\n" ++ second)).hasSyntaxErrors = false ∧
      unplacedStatements (first ++ "\n" ++ second) =
        unplacedStatements first ++ unplacedStatements second := by
  obtain ⟨scanned, tokens⟩ := scan_joined clean secondClean
  have quiet := ((hasSyntaxErrors_eq_false_iff first).mp clean).2
  have secondQuiet := ((hasSyntaxErrors_eq_false_iff second).mp secondClean).2
  have same := congrArg Parse.grammatical tokens
  rw [Parse.grammatical_map Token.kind_unplaced,
    Parse.grammatical_map Token.kind_unplaced] at same
  obtain ⟨trees, problems⟩ := Parse.relocated same
  rw [Parse.diagnostics_append quiet secondQuiet, List.map_nil,
    List.map_eq_nil_iff] at problems
  constructor
  · exact (hasSyntaxErrors_eq_false_iff _).mpr ⟨scanned, problems⟩
  · have statements := Parse.statements_append (Scan.ofText first).tokens
      secondQuiet
    rw [← trees] at statements
    exact statements

/-- The statements of joined texts are those of the texts in their order. -/
theorem statements_joined {texts : List String}
    (clean : ∀ text ∈ texts, (ofText text).hasSyntaxErrors = false) :
    (ofText ("\n".intercalate texts)).hasSyntaxErrors = false ∧
      unplacedStatements ("\n".intercalate texts) =
        texts.flatMap unplacedStatements := by
  induction texts with
  | nil =>
      rw [String.intercalate_nil]
      constructor
      · decide +kernel
      · decide +kernel
  | cons text others inductionHypothesis =>
      obtain ⟨here, behind⟩ := List.forall_mem_cons.mp clean
      obtain ⟨othersClean, statements⟩ := inductionHypothesis behind
      cases others with
      | nil => simpa using here
      | cons next others =>
          obtain ⟨stillClean, both⟩ := unplacedStatements_append here othersClean
          rw [String.intercalate_cons_cons]
          refine ⟨stillClean, ?_⟩
          rw [both, statements, ← List.flatMap_cons]

end Compilation

end WorkflowLang
