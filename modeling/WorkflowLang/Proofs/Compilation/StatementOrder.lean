import WorkflowLang.Proofs.Compilation.SyntaxErrors
import WorkflowLang.Proofs.Tree.Reach

/-!
# The order of statements

The versions and blocks of a text are read one after the other, each from its keyword
on.  Whatever recovery puts in the place of absent tokens, a statement begins with its
keyword and reaches no further than the end of the next keyword.  So sorting statements
by their spans, or blocks by their keywords, finds the order in which they stand in the
text (`Compilation.listsStatements`).
-/

namespace WorkflowLang

/-- A statement whose tokens all end before the next keyword ends there too. -/
theorem Statement.finish_span_le_of_isBefore {first second : Statement}
    (before : ∀ token ∈ first.tokens, token.IsBefore second.keyword) :
    first.span.finish ≤ second.keyword.span.start := by
  obtain ⟨token, inFirst, finish⟩ := first.exists_finish
  rw [finish]
  exact before token inFirst

namespace Parse

variable {position : Position} {text : List Char}

/-- Every statement begins with its keyword, with or without reports. -/
theorem start_span_statement {statement : Statement}
    (member : statement ∈
      (ofTokens (Scan.scanFrom position text).tokens).tree.statements) :
    statement.span.start = statement.keyword.span.start :=
  Statement.start_span ((follow_statements position text).2 statement member)

theorem keyword_statements (tokens : List Token) :
    (ofTokens tokens).tree.statements.map Statement.keyword =
      tokens.filter Token.beginsStatement := by
  have keywords := filter_keywordsOf_grammatical tokens Token.beginsStatement
    fun _ => id
  rw [← keywords, statements_ofTokens,
    (SyntaxTree.keywords_statementsOf (grammatical tokens)).1,
    Token.keywordsOf, List.filter_filter]
  simp

theorem pairwise_start_statements (position : Position) (text : List Char) :
    (ofTokens (Scan.scanFrom position text).tokens).tree.statements.Pairwise
      fun first second => ¬second.span.start ≤ first.span.start := by
  have follow := (Scan.pairwise_start position text).filter
    Token.beginsStatement
  rw [← keyword_statements, List.pairwise_map] at follow
  refine follow.imp_of_mem fun isFirst isSecond increasing => ?_
  rwa [start_span_statement isFirst, start_span_statement isSecond]

/-- Without a report every statement ends before the next one begins. -/
theorem pairwise_finish_of_diagnostics_eq_nil
    (quiet : (ofTokens (Scan.scanFrom position text).tokens).diagnostics =
      []) :
    (ofTokens (Scan.scanFrom position text).tokens).tree.statements.Pairwise
      fun first second => first.span.finish ≤ second.span.start := by
  have before := (Scan.pairwise_isBefore position text).filter
    fun token => !token.kind.isTrivia
  change (grammatical _).Pairwise _ at before
  rw [← (of_diagnostics_eq_nil quiet).1] at before
  refine (List.pairwise_flatMap.mp before).2.imp_of_mem ?_
  intro first second _ isSecond apart
  rw [start_span_statement isSecond]
  exact Statement.finish_span_le_of_isBefore fun token inFirst =>
    apart token inFirst _ second.keyword_mem_tokens

end Parse

namespace Compilation

/-- What is said of the order of versions and blocks: in the order of their keywords
they stand one after the other, each from its keyword to the end of the next keyword
at most, and both sorted listings have this order. -/
structure ListsStatements (compilation : Compilation)
    (statements : List Statement) : Prop where
  perm : statements.Perm
    (compilation.tree.versions.map Statement.version ++
      compilation.tree.blocks.map Statement.block)
  keywords : statements.map Statement.keyword =
    compilation.tokens.filter Token.beginsStatement
  start : ∀ statement ∈ statements,
    statement.span.start = statement.keyword.span.start
  increasing : statements.Pairwise fun first second =>
    ¬second.span.start ≤ first.span.start
  reach : statements.Pairwise fun first second =>
    first.span.finish ≤ second.keyword.span.finish
  apart : compilation.hasSyntaxErrors = false →
    statements.Pairwise fun first second =>
      first.span.finish ≤ second.span.start
  sorted : compilation.tree.sortedStatements = statements
  blocks_perm : compilation.document.blocks.Perm
    (compilation.document.workflows.map DocumentBlock.workflow ++
      compilation.document.actions.map DocumentBlock.action)
  blocks_eq : compilation.document.blocks.map DocumentBlock.block =
    statements.filterMap Statement.block?

theorem listsStatements (text : String) :
    (ofText text).ListsStatements (ofText text).tree.statements where
  perm := (ofText text).tree.perm_statements.symm
  keywords := Parse.keyword_statements _
  start _ member := Parse.start_span_statement member
  increasing := Parse.pairwise_start_statements _ _
  reach := (Parse.follow_statements _ _).1.imp
    SyntaxTree.Reaches.finish_span_le
  apart clean := Parse.pairwise_finish_of_diagnostics_eq_nil
    ((hasSyntaxErrors_eq_false_iff text).mp clean).2
  sorted := SyntaxTree.sortedStatements_eq
    (Parse.pairwise_start_statements _ _)
  blocks_perm := (ofText text).document.perm_blocks
  blocks_eq := by
    have blocks : (ofText text).document.blocks =
        (ofText text).tree.blocks.map DocumentBlock.ofBlock :=
      Parse.blocks_ofTokens Position.origin text.toList
    rw [blocks, List.map_map]
    simp [Function.comp_def, SyntaxTree.blocks]

/-- A version that breaks off reaches over the keyword of the action behind it, where
its integer is missed. -/
example :
    let statements := (ofText "version = action \"a\" \x7b").tree.statements
    statements.map Statement.span =
      [⟨⟨0, 0⟩, ⟨0, 16⟩⟩, ⟨⟨0, 10⟩, ⟨0, 22⟩⟩] := by
  decide +kernel

end Compilation

end WorkflowLang
