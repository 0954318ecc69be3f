import WorkflowLang.Proofs.Checks.Relocation
import WorkflowLang.Proofs.Layout.Idempotence

/-!
# What the checker says of a layout

In a layout every statement begins on a line of its own.  Nothing but the rule
that a version comes before all blocks looks at lines, and it only compares the
first version with the first block.  So a text and its layout have the same
findings, unless the first block stands before the first version on the same
line: then the layout has one finding more (`Compilation.format_keeps_findings`).
-/

namespace WorkflowLang

open Layout (CommentedText PlannedLine SettledLine TokenLine)

/-! ## Rows of a layout -/

namespace Layout

/-- All of some tokens stand on earlier lines than all of some others. -/
def StandsAbove (first second : List Token) : Prop :=
  ∀ token ∈ first, ∀ other ∈ second,
    token.span.start.line < other.span.start.line

theorem TokenLine.line_lt_of_mem_placedFrom {indent : String}
    (isIndent : IsIndent indent) {number : Nat} {lines : List TokenLine}
    {token : Token} (member : token ∈ placedFrom indent number lines) :
    token.span.start.line < number + lines.length := by
  induction lines generalizing number with
  | nil => simp [placedFrom] at member
  | cons line others inductionHypothesis =>
      rw [List.length_cons]
      rcases List.mem_append.mp member with isHere | isLater
      · have here := (line_of_mem_placed isIndent isHere).1
        omega
      · have behind := inductionHypothesis isLater
        omega

/-- The tokens of some settled lines where they stand, comments apart. -/
def rows (indent : String) (number : Nat) :
    List SettledLine → List (List Token)
  | [] => []
  | line :: others =>
      Token.withoutComments (TokenLine.placedFrom indent number line.lines) ::
        rows indent (number + line.lines.length) others

theorem flatten_rows (indent : String) (number : Nat)
    (settled : List SettledLine) :
    (rows indent number settled).flatten =
      Token.withoutComments (TokenLine.placedFrom indent number
        (settled.flatMap SettledLine.lines)) := by
  induction settled generalizing number with
  | nil => rfl
  | cons line others inductionHypothesis =>
      rw [rows, List.flatten_cons, inductionHypothesis, List.flatMap_cons,
        placedFrom_append, Token.withoutComments_append]

theorem pairwise_rows {indent : String} (isIndent : IsIndent indent)
    (number : Nat) (settled : List SettledLine) :
    (rows indent number settled).Pairwise StandsAbove := by
  induction settled generalizing number with
  | nil => exact List.Pairwise.nil
  | cons line others inductionHypothesis =>
      refine List.pairwise_cons.mpr ⟨?_, inductionHypothesis _⟩
      intro row isRow token member other isOther
      have above := TokenLine.line_lt_of_mem_placedFrom isIndent
        (List.mem_of_mem_filter member)
      have later := List.mem_flatten_of_mem isRow isOther
      rw [flatten_rows] at later
      have below := TokenLine.le_line_of_mem_placedFrom isIndent
        (List.mem_of_mem_filter later)
      exact Nat.lt_of_lt_of_le above below

theorem map_length_rows (indent : String) (number : Nat)
    {settled : List SettledLine} (sound : ∀ line ∈ settled, line.IsSound) :
    (rows indent number settled).map List.length =
      settled.map fun line => line.contents.length := by
  induction settled generalizing number with
  | nil => rfl
  | cons line others inductionHypothesis =>
      obtain ⟨here, behind⟩ := List.forall_mem_cons.mp sound
      have contents := (tokens_settledLines
        (List.forall_mem_singleton.mpr here)).1
      have placed := congrArg (fun tokens =>
        (Token.withoutComments tokens).length)
        (TokenLine.map_unplaced_placedFrom indent number line.lines)
      simp only [← Compilation.map_unplaced_withoutComments,
        List.length_map] at placed
      rw [rows, List.map_cons, List.map_cons, inductionHypothesis _ behind,
        placed]
      simpa using congrArg List.length contents

theorem map_contents_settle (pending : List String)
    (commented : List CommentedToken) (plan : List PlannedLine) :
    (settle pending commented plan).1.map SettledLine.contents =
      plan.map PlannedLine.contents := by
  induction plan generalizing pending commented with
  | nil => rfl
  | cons line others inductionHypothesis =>
      cases line with
      | blank => exact congrArg ([] :: ·) (inductionHypothesis pending commented)
      | tokens depth commentDepth width planned =>
          exact congrArg (planned :: ·) (inductionHypothesis _ _)

/-- When the lines of a plan stand one below the other, so do the keywords of the
statements. -/
theorem pairwise_keyword_line {statements : List Statement}
    (descend : ((statementListLines statements).map
      PlannedLine.contents).Pairwise StandsAbove) :
    statements.Pairwise fun first second =>
      first.keyword.span.start.line < second.keyword.span.start.line := by
  have row {statement : Statement} {statements : List Statement}
      (member : statement ∈ statements) :
      ∃ line ∈ (statementListLines statements).map PlannedLine.contents,
        statement.keyword ∈ line := by
    have present : statement.keyword ∈
        (statementListLines statements).flatMap PlannedLine.contents := by
      rw [contents_statementListLines]
      exact List.mem_flatMap.mpr
        ⟨statement, member, statement.keyword_mem_tokens⟩
    obtain ⟨line, isLine, inside⟩ := List.mem_flatMap.mp present
    exact ⟨line.contents, List.mem_map_of_mem isLine, inside⟩
  induction statements with
  | nil => exact List.Pairwise.nil
  | cons statement others inductionHypothesis =>
      cases others with
      | nil => exact List.pairwise_singleton _ _
      | cons next others =>
          rw [statementListLines, List.map_append, List.map_cons] at descend
          · obtain ⟨_, behind, above⟩ := List.pairwise_append.mp descend
            refine List.pairwise_cons.mpr ⟨?_, inductionHypothesis
              (List.pairwise_cons.mp behind).2⟩
            intro other isOther
            obtain ⟨first, isFirst, inFirst⟩ :=
              row (List.mem_singleton_self statement)
            obtain ⟨second, isSecond, inSecond⟩ := row isOther
            exact above first isFirst second
              (List.mem_cons_of_mem _ isSecond) _ inFirst _ inSecond
          · simp

end Layout

/-! ## Versions behind blocks -/

namespace SyntaxTree

/-- The first block stands on an earlier line than the first version. -/
def VersionIsLate (tree : SyntaxTree) : Prop :=
  Block.IsAbove tree.versions.head? tree.blocks

/-- A document begins with a block and has a version later on. -/
def BlockIsFirst (tree : SyntaxTree) : Prop :=
  ∃ block version, tree.statements.head? = some (.block block) ∧
    tree.versions.head? = some version

/-- A document begins with a block, and its first version stands behind the
keyword of this block on the same line. -/
def VersionIsBeside (tree : SyntaxTree) : Prop :=
  ∃ block version, tree.statements.head? = some (.block block) ∧
    tree.versions.head? = some version ∧
      block.keyword.span.start.line = version.keyword.span.start.line

variable {tree : SyntaxTree}

/-- What holds between any two statements holds between the block a document
begins with and its first version. -/
theorem rel_of_head? {Relates : Statement → Statement → Prop} {block : Block}
    {version : VersionStatement}
    (begins : tree.statements.head? = some (.block block))
    (isVersion : tree.versions.head? = some version)
    (related : tree.statements.Pairwise Relates) :
    Relates (.block block) (.version version) := by
  have member := mem_of_mem_versions (List.mem_of_mem_head? isVersion)
  obtain ⟨statements⟩ := tree
  obtain ⟨others, rfl⟩ := List.head?_eq_some_iff.mp begins
  have later : Statement.version version ∈ others := by simpa using member
  exact (List.pairwise_cons.mp related).1 _ later

/-- The first block of a document that begins with a block is that one. -/
theorem head?_blocks {block : Block}
    (begins : tree.statements.head? = some (.block block)) :
    tree.blocks.head? = some block := by
  obtain ⟨statements⟩ := tree
  cases statements with
  | nil => simp at begins
  | cons statement others =>
      obtain rfl : statement = .block block := by simpa using begins
      rfl

/-- The first block only stands above the first version if the document begins
with it. -/
theorem VersionIsLate.exists_block
    (descend : tree.statements.Pairwise fun first second =>
      first.keyword.span.start.line ≤ second.keyword.span.start.line)
    (late : tree.VersionIsLate) :
    ∃ block version, tree.statements.head? = some (.block block) ∧
      tree.versions.head? = some version ∧
        block.keyword.span.start.line <
          version.keyword.span.start.line := by
  obtain ⟨version, isVersion, block, isBlock, above⟩ := late
  obtain ⟨statements⟩ := tree
  cases statements with
  | nil => simp [versions] at isVersion
  | cons statement others =>
      cases statement with
      | block first =>
          obtain rfl : first = block := by
            simpa [blocks, Statement.block?] using isBlock
          exact ⟨first, version, rfl, isVersion, above⟩
      | version first =>
          obtain rfl : first = version := by
            simpa [versions, Statement.version?] using isVersion
          have later : Statement.block block ∈ others := by
            have member := mem_of_mem_blocks (List.mem_of_mem_head? isBlock)
            simpa using member
          have below := (List.pairwise_cons.mp descend).1 _ later
          exact absurd above (Nat.not_lt.mpr below)

theorem IsOrdered.pairwise_keyword_le (ordered : tree.IsOrdered) :
    tree.statements.Pairwise fun first second =>
      first.keyword.span.start.line ≤ second.keyword.span.start.line := by
  refine ordered.pairwise_keyword.imp fun follows => ?_
  simp only [Position.le_def] at follows
  omega

/-- A version that is not late stands beside the first block, or no block comes
before it. -/
theorem IsOrdered.versionIsLate_or_beside (ordered : tree.IsOrdered) :
    tree.BlockIsFirst ↔ tree.VersionIsLate ∨ tree.VersionIsBeside := by
  constructor
  · rintro ⟨block, version, begins, isVersion⟩
    have below : block.keyword.span.start.line ≤
        version.keyword.span.start.line :=
      rel_of_head? begins isVersion ordered.pairwise_keyword_le
    rcases Nat.lt_or_eq_of_le below with above | beside
    · exact Or.inl ⟨version, isVersion, block, head?_blocks begins, above⟩
    · exact Or.inr ⟨block, version, begins, isVersion, beside⟩
  · rintro (late | ⟨block, version, begins, isVersion, _⟩)
    · obtain ⟨block, version, begins, isVersion, _⟩ :=
        late.exists_block ordered.pairwise_keyword_le
      exact ⟨block, version, begins, isVersion⟩
    · exact ⟨block, version, begins, isVersion⟩

/-- A late version stands on a later line. -/
theorem IsOrdered.not_beside (ordered : tree.IsOrdered)
    (late : tree.VersionIsLate) : ¬tree.VersionIsBeside := by
  rintro ⟨block, version, begins, isVersion, beside⟩
  obtain ⟨first, statement, isFirst, isStatement, above⟩ :=
    late.exists_block ordered.pairwise_keyword_le
  obtain rfl : first = block := by simpa [isFirst] using begins
  obtain rfl : statement = version := by simpa [isStatement] using isVersion
  omega

theorem blockIsFirst_of_mapTokens_eq {first second : SyntaxTree}
    {view : Token → Token}
    (same : first.mapTokens view = second.mapTokens view)
    (begins : first.BlockIsFirst) : second.BlockIsFirst := by
  obtain ⟨block, version, isBlock, isVersion⟩ := begins
  have heads := congrArg (fun tree => tree.statements.head?) same
  have versions := congrArg (fun tree => tree.versions.head?) same
  simp only [mapTokens, List.head?_map, isBlock, Option.map_some] at heads
  simp only [versions_mapTokens, List.head?_map, isVersion,
    Option.map_some] at versions
  obtain ⟨statement, isFirst, statement_eq⟩ :=
    Option.map_eq_some_iff.mp heads.symm
  obtain ⟨other, isOther, _⟩ := Option.map_eq_some_iff.mp versions.symm
  cases statement with
  | version _ => simp [Statement.mapTokens] at statement_eq
  | block body => exact ⟨body, other, isFirst, isOther⟩

end SyntaxTree

/-! ## Findings -/

/-- What a problem is reported as: its number and its wording. -/
def Problem.finding (problem : Problem) : Nat × String :=
  (problem.code, problem.message)

namespace Compilation

open Diagnostic (problems)

/-- The findings of a text in the order of discovery. -/
def findings (compilation : Compilation) : List (Nat × String) :=
  compilation.diagnostics.map fun diagnostic => diagnostic.problem.finding

variable {text : String}

/-- What is wrong with the versions themselves. -/
def versionProblems (text : String) : List Problem :=
  problems (VersionStatement.listDiagnostics (ofText text).tree.versions)

/-- What is wrong with the blocks, and what the checks find. -/
def otherProblems (text : String) : List Problem :=
  ((ofText text).tree.blocks.flatMap fun block =>
    problems block.diagnostics) ++
      problems (ofText text).document.checkDiagnostics

theorem findings_eq (compilation : Compilation) :
    compilation.findings =
      (problems compilation.diagnostics).map Problem.finding := by
  rw [findings, problems, List.map_map]
  rfl

theorem diagnostics_eq (clean : (ofText text).hasSyntaxErrors = false) :
    (ofText text).diagnostics = (ofText text).tree.bindingDiagnostics ++
      (ofText text).document.checkDiagnostics := by
  obtain ⟨scanned, parsed⟩ := (hasSyntaxErrors_eq_false_iff text).mp clean
  simp only [ofText, scanned, parsed, List.nil_append]

theorem problems_of_late (clean : (ofText text).hasSyntaxErrors = false)
    (late : (ofText text).tree.VersionIsLate) :
    problems (ofText text).diagnostics =
      versionProblems text ++ .versionAfterBlock :: otherProblems text := by
  rw [diagnostics_eq clean, SyntaxTree.bindingDiagnostics,
    Diagnostic.problems_append, Diagnostic.problems_append,
    Block.problems_listDiagnostics_of_isAbove late, List.append_assoc]
  rfl

theorem problems_of_not_late
    (clean : (ofText text).hasSyntaxErrors = false)
    (notLate : ¬(ofText text).tree.VersionIsLate) :
    problems (ofText text).diagnostics =
      versionProblems text ++ otherProblems text := by
  have below := SyntaxTree.pairwise_blocks
    (fun first second => first.span.start.line ≤ second.span.start.line)
    (isOrdered clean).pairwise_keyword_le
  rw [diagnostics_eq clean, SyntaxTree.bindingDiagnostics,
    Diagnostic.problems_append, Diagnostic.problems_append,
    Block.problems_listDiagnostics_of_not_isAbove below notLate,
    List.append_assoc]
  rfl

/-- Apart from a late version, a text and its layout have the same problems. -/
theorem problems_layoutOf (clean : (ofText text).hasSyntaxErrors = false)
    {indent : String} (isIndent : IsIndent indent) :
    versionProblems (layoutOf text indent) = versionProblems text ∧
      otherProblems (layoutOf text indent) = otherProblems text := by
  have keeps := Token.keepsContent_unplaced
  obtain ⟨stillClean, trees⟩ := tree_layoutOf clean isIndent
  obtain ⟨documents, blocks⟩ :=
    Document.relocated trees (isOrdered stillClean) (isOrdered clean)
  have versions (tree : SyntaxTree) :
      problems (VersionStatement.listDiagnostics tree.versions) =
        problems (VersionStatement.listDiagnostics
          (tree.mapTokens Token.unplaced).versions) := by
    rw [SyntaxTree.versions_mapTokens,
      VersionStatement.problems_listDiagnostics_map keeps]
  have bodies (tree : SyntaxTree) :
      (tree.blocks.flatMap fun block => problems block.diagnostics) =
        (tree.mapTokens Token.unplaced).blocks.flatMap fun block =>
          problems block.diagnostics := by
    simp only [SyntaxTree.blocks_mapTokens, List.flatMap_map,
      Block.problems_diagnostics_mapTokens keeps]
  refine ⟨?_, ?_⟩
  · rw [versionProblems, versions, trees, ← versions, versionProblems]
  · rw [otherProblems, bodies, trees, ← bodies, otherProblems]
    exact congrArg (_ ++ ·)
      (Document.problems_checkDiagnostics_congr documents blocks)

/-- The comments behind the settled lines of a layout are no tokens. -/
theorem withoutComments_tokens_layoutOf
    (clean : (ofText text).hasSyntaxErrors = false) {indent : String}
    (isIndent : IsIndent indent) :
    Token.withoutComments (ofText (layoutOf text indent)).tokens =
      (Layout.rows indent 0 (settledLines text).1).flatten := by
  have tokens : (ofText (layoutOf text indent)).tokens =
      TokenLine.placedFrom indent 0 (layoutLines text) :=
    congrArg Scan.tokens (scan_layoutOf clean isIndent)
  have comments (number : Nat) (texts : List String) :
      Token.withoutComments (TokenLine.placedFrom indent number
        (texts.map (TokenLine.ofComment 0))) = [] := by
    refine List.filter_eq_nil_iff.mpr fun token member => ?_
    have kind := (Layout.placedFrom_comments indent number 0 texts).1 token
      member
    simp [kind]
  have gap (number : Nat) (isClosed : Bool) :
      Token.withoutComments (TokenLine.placedFrom indent number
        (if isClosed then [] else [TokenLine.blank])) = [] := by
    cases isClosed <;> rfl
  rw [tokens, layoutLines_eq, Layout.sheet, Layout.placedFrom_append,
    Layout.placedFrom_append, Layout.placedFrom_append,
    Token.withoutComments_append, Token.withoutComments_append,
    Token.withoutComments_append, comments, comments, gap,
    Layout.flatten_rows]
  simp only [List.append_nil]

/-- The rows of a layout are its planned lines. -/
theorem rows_layoutOf (clean : (ofText text).hasSyntaxErrors = false)
    {indent : String} (isIndent : IsIndent indent) :
    (Layout.treeLines (ofText (layoutOf text indent)).tree).map
        PlannedLine.contents =
      Layout.rows indent 0 (settledLines text).1 := by
  have stillClean := (tree_layoutOf clean isIndent).1
  have contents := (fits stillClean).contents_eq
  rw [CommentedText.ofTokens, CommentedText.map_token_attach,
    withoutComments_tokens_layoutOf clean isIndent,
    List.flatMap_def] at contents
  refine List.eq_iff_flatten_eq.mpr ⟨contents, ?_⟩
  have length_moved (line : PlannedLine) :
      (line.mapTokens Token.unplaced).contents.length =
        line.contents.length := by
    cases line <;> simp [PlannedLine.mapTokens]
  have planned := congrArg (List.map fun line => line.contents.length)
    (treeLines_layoutOf clean isIndent)
  simp only [List.map_map, Function.comp_def, length_moved] at planned
  have settled := congrArg (List.map List.length)
    (Layout.map_contents_settle []
      (CommentedText.ofTokens (ofText text).tokens).tokens
      (Layout.treeLines (ofText text).tree))
  simp only [List.map_map, Function.comp_def] at settled
  rw [settledLines, Layout.map_length_rows indent 0 (fits clean).isSound,
    List.map_map]
  exact planned.trans settled.symm

/-- In a layout every statement begins on a line of its own. -/
theorem pairwise_keyword_layoutOf
    (clean : (ofText text).hasSyntaxErrors = false) {indent : String}
    (isIndent : IsIndent indent) :
    (ofText (layoutOf text indent)).tree.statements.Pairwise
      fun first second =>
        first.keyword.span.start.line < second.keyword.span.start.line := by
  have stillClean := (tree_layoutOf clean isIndent).1
  refine Layout.pairwise_keyword_line ?_
  rw [← treeLines_eq stillClean, rows_layoutOf clean isIndent]
  exact Layout.pairwise_rows isIndent 0 _

/-- So in a layout the version is late if it stands behind a block. -/
theorem versionIsLate_layoutOf
    (clean : (ofText text).hasSyntaxErrors = false) {indent : String}
    (isIndent : IsIndent indent) :
    (ofText (layoutOf text indent)).tree.VersionIsLate ↔
      (ofText text).tree.BlockIsFirst := by
  obtain ⟨stillClean, trees⟩ := tree_layoutOf clean isIndent
  have ordered := isOrdered stillClean
  constructor
  · intro late
    exact SyntaxTree.blockIsFirst_of_mapTokens_eq trees
      (ordered.versionIsLate_or_beside.mpr (Or.inl late))
  · intro begins
    have moved := SyntaxTree.blockIsFirst_of_mapTokens_eq trees.symm begins
    refine (ordered.versionIsLate_or_beside.mp moved).resolve_right ?_
    rintro ⟨block, version, isBlock, isVersion, beside⟩
    have apart : block.keyword.span.start.line <
        version.keyword.span.start.line :=
      SyntaxTree.rel_of_head? isBlock isVersion
        (pairwise_keyword_layoutOf clean isIndent)
    exact absurd beside (Nat.ne_of_lt apart)

/-- A version that is not late in a text but stands behind its first block is late
in the layout; otherwise a text and its layout have the same findings. -/
theorem findings_layoutOf (clean : (ofText text).hasSyntaxErrors = false)
    {indent : String} (isIndent : IsIndent indent) :
    (¬(ofText text).tree.VersionIsBeside →
      (ofText (layoutOf text indent)).findings = (ofText text).findings) ∧
    ((ofText text).tree.VersionIsBeside → ∃ before behind,
      (ofText text).findings = before ++ behind ∧
        (ofText (layoutOf text indent)).findings =
          before ++ Problem.versionAfterBlock.finding :: behind) := by
  have stillClean := (tree_layoutOf clean isIndent).1
  have becomesLate := versionIsLate_layoutOf clean isIndent
  have ordered := isOrdered clean
  rw [ordered.versionIsLate_or_beside] at becomesLate
  obtain ⟨versions, others⟩ := problems_layoutOf clean isIndent
  refine ⟨fun notBeside => ?_, fun beside => ?_⟩
  · rw [findings_eq, findings_eq]
    by_cases late : (ofText text).tree.VersionIsLate
    · rw [problems_of_late clean late, problems_of_late stillClean
        (becomesLate.mpr (Or.inl late)), versions, others]
    · rw [problems_of_not_late clean late, problems_of_not_late stillClean
        fun isLate => (becomesLate.mp isLate).elim late notBeside,
        versions, others]
  · refine ⟨(versionProblems text).map Problem.finding,
      (otherProblems text).map Problem.finding, ?_, ?_⟩
    · rw [findings_eq, problems_of_not_late clean fun late =>
        ordered.not_beside late beside, List.map_append]
    · rw [findings_eq, problems_of_late stillClean
        (becomesLate.mpr (Or.inr beside)), versions, others, List.map_append,
        List.map_cons]

/-- Formatting keeps what the checker says.  Only when a document begins with a
block and has its first version on the same line as this block's keyword, the
layout has one more finding: that the version comes too late. -/
theorem format_keeps_findings
    (clean : (ofText text).hasSyntaxErrors = false) {indent : String}
    (isIndent : IsIndent indent) :
    ∃ layout, (ofText text).format? indent = some layout ∧
      (¬(ofText text).tree.VersionIsBeside →
        (ofText layout).findings = (ofText text).findings) ∧
      ((ofText text).tree.VersionIsBeside → ∃ before behind,
        (ofText text).findings = before ++ behind ∧
          (ofText layout).findings =
            before ++ Problem.versionAfterBlock.finding :: behind) :=
  ⟨layoutOf text indent, format?_eq clean indent,
    findings_layoutOf clean isIndent⟩

/-- A version on the line above an action. -/
def versionAbove : String :=
  "version = 0\naction \"a\" \x7b uses = \"./x\" \x7d"

theorem format_keeps_findings_versionAbove :
    (ofText versionAbove).hasSyntaxErrors = false ∧ IsIndent "\t" ∧
      ¬(ofText versionAbove).tree.VersionIsBeside ∧
        ∃ layout, (ofText versionAbove).format? "\t" = some layout ∧
          (ofText layout).findings = (ofText versionAbove).findings := by
  have clean : (ofText versionAbove).hasSyntaxErrors = false :=
    (hasSyntaxErrors_eq_false_iff versionAbove).mpr
      ⟨by decide +kernel, by decide +kernel⟩
  have isIndent : IsIndent "\t" := by
    simp [IsIndent]
  have notBeside : ¬(ofText versionAbove).tree.VersionIsBeside := by
    rintro ⟨block, _, begins, _⟩
    have noBlock : (ofText versionAbove).tree.statements.head?.bind
        Statement.block? = none := by
      decide +kernel
    rw [begins] at noBlock
    cases noBlock
  obtain ⟨layout, isLayout, kept, _⟩ := format_keeps_findings clean isIndent
  exact ⟨clean, isIndent, notBeside, layout, isLayout, kept notBeside⟩

/-- An action and behind it, on the same line, a version. -/
def versionBeside : String :=
  "action \"a\" \x7b uses = \"./x\" \x7d version = 0"

/-- The same with the version on a line of its own. -/
def versionBelow : String :=
  "action \"a\" \x7b\n  uses = \"./x\"\n\x7d\n\nversion = 0\n"

/-- Formatting the first gives the second, and what the checker says changes. -/
theorem findings_versionBelow :
    (ofText versionBeside).hasSyntaxErrors = false ∧ IsIndent "  " ∧
      (ofText versionBeside).format? "  " = some versionBelow ∧
        (ofText versionBelow).findings ≠
          (ofText versionBeside).findings := by
  have clean : (ofText versionBeside).hasSyntaxErrors = false :=
    (hasSyntaxErrors_eq_false_iff versionBeside).mpr
      ⟨by decide +kernel, by decide +kernel⟩
  have isIndent : IsIndent "  " := by
    simp [IsIndent]
  have layout : layoutOf versionBeside "  " = versionBelow := by
    rw [layoutOf, layoutLines_eq, settledLines, treeLines_eq clean]
    decide +kernel
  have beside : (ofText versionBeside).tree.VersionIsBeside :=
    ⟨(ofText versionBeside).tree.blocks.headI,
      (ofText versionBeside).tree.versions.headI, by decide +kernel,
      by decide +kernel, by decide +kernel⟩
  obtain ⟨before, behind, found, more⟩ :=
    (findings_layoutOf clean isIndent).2 beside
  rw [← layout]
  refine ⟨clean, isIndent, format?_eq clean "  ", fun same => ?_⟩
  rw [same, found] at more
  simp at more

end Compilation

end WorkflowLang
