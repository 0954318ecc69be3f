import WorkflowLang.Proofs.Compilation.SyntaxErrors
import WorkflowLang.Proofs.Document.Mapping
import WorkflowLang.Proofs.Layout.Sheet
import WorkflowLang.Proofs.Tree.Relocation

/-!
# Nothing is lost by laying out a document anew

The layout of a text without syntax errors is scanned to the same tokens and the
same comments, parsed to the same tree and bound to the same document, all up to
places (`Compilation.format_lossless`).
-/

namespace WorkflowLang

open Layout (CommentedText TokenLine)

/-- The comments of faultless tokens are the only trivia among them. -/
theorem Parse.grammatical_eq_withoutComments {tokens : List Token}
    (recut : ∀ token ∈ tokens, token.IsRecut) :
    grammatical tokens = Token.withoutComments tokens := by
  refine List.filter_congr fun token member => ?_
  have recognized := (recut token member).kind_ne_unrecognized
  revert recognized
  cases token.kind <;> decide

/-- Faultless tokens that differ in comments and places only are parsed
alike. -/
theorem Parse.relocated_withoutComments {first second : List Token}
    (recut : ∀ token ∈ first, token.IsRecut)
    (otherRecut : ∀ token ∈ second, token.IsRecut)
    (same : (Token.withoutComments first).map Token.unplaced =
      (Token.withoutComments second).map Token.unplaced) :
    (ofTokens first).tree.mapTokens Token.unplaced =
        (ofTokens second).tree.mapTokens Token.unplaced ∧
      (ofTokens first).diagnostics.map Diagnostic.problem =
        (ofTokens second).diagnostics.map Diagnostic.problem := by
  rw [← grammatical_eq_withoutComments recut,
    ← grammatical_eq_withoutComments otherRecut] at same
  exact relocated same

theorem Token.IsRecut.of_unplaced_eq {first second : Token}
    (same : first.unplaced = second.unplaced) (recut : first.IsRecut) :
    second.IsRecut := by
  obtain ⟨sameKind, sameText⟩ :=
    (Token.unplaced_eq_unplaced_iff first second).mp same
  unfold IsRecut at recut ⊢
  rwa [← sameKind, ← sameText]

namespace Compilation

variable {text : String}

theorem isRecut (clean : (ofText text).hasSyntaxErrors = false) :
    ∀ token ∈ (ofText text).tokens, token.IsRecut :=
  fun _ member => Token.isRecut_of_mem_scan
    ((hasSyntaxErrors_eq_false_iff text).mp clean).1 member

theorem isOrdered (clean : (ofText text).hasSyntaxErrors = false) :
    (ofText text).tree.IsOrdered :=
  Parse.isOrdered_of_diagnostics_eq_nil
    ((hasSyntaxErrors_eq_false_iff text).mp clean).2

/-- The tree of a text holds its tokens, comments apart. -/
theorem tokens_tree (clean : (ofText text).hasSyntaxErrors = false) :
    (ofText text).tree.tokens =
      Token.withoutComments (ofText text).tokens := by
  rw [← Parse.grammatical_eq_withoutComments (isRecut clean)]
  exact (Parse.of_diagnostics_eq_nil
    ((hasSyntaxErrors_eq_false_iff text).mp clean).2).1

theorem treeLines_eq (clean : (ofText text).hasSyntaxErrors = false) :
    Layout.treeLines (ofText text).tree =
      Layout.statementListLines (ofText text).tree.statements := by
  rw [Layout.treeLines, (isOrdered clean).sortedStatements_eq]

/-- Texts with the same tokens are parsed to the same tree, moved. -/
theorem tree_congr {other : String}
    (clean : (ofText text).hasSyntaxErrors = false)
    (otherClean : (ofText other).hasSyntaxErrors = false)
    (same : (Token.withoutComments (ofText text).tokens).map Token.unplaced =
      (Token.withoutComments (ofText other).tokens).map Token.unplaced) :
    (ofText text).tree.mapTokens Token.unplaced =
      (ofText other).tree.mapTokens Token.unplaced :=
  (Parse.relocated_withoutComments (isRecut clean) (isRecut otherClean) same).1

/-- The plans of trees that differ in places only do so too. -/
theorem treeLines_congr {other : String}
    (clean : (ofText text).hasSyntaxErrors = false)
    (otherClean : (ofText other).hasSyntaxErrors = false)
    (same : (ofText text).tree.mapTokens Token.unplaced =
      (ofText other).tree.mapTokens Token.unplaced) :
    (Layout.treeLines (ofText text).tree).map
        (Layout.PlannedLine.mapTokens Token.unplaced) =
      (Layout.treeLines (ofText other).tree).map
        (Layout.PlannedLine.mapTokens Token.unplaced) := by
  have keeps := Token.keepsContent_unplaced
  rw [treeLines_eq clean, treeLines_eq otherClean,
    ← Layout.statementListLines_mapTokens keeps,
    ← Layout.statementListLines_mapTokens keeps]
  exact congrArg (fun tree : SyntaxTree =>
    Layout.statementListLines tree.statements) same

/-- The plan of a text without syntax errors holds its tokens. -/
theorem fits (clean : (ofText text).hasSyntaxErrors = false) :
    Layout.Fits (ofText text).tree
      (CommentedText.ofTokens (ofText text).tokens) := by
  have tokens_eq : (CommentedText.ofTokens (ofText text).tokens).tokens.map
      Layout.CommentedToken.token =
        Token.withoutComments (ofText text).tokens :=
    CommentedText.map_token_attach [] _
  have comments_eq : (CommentedText.ofTokens (ofText text).tokens).comments =
      Token.commentTexts (ofText text).tokens :=
    CommentedText.comments_attach [] _
  refine ⟨?_, ?_, ?_, ?_, ?_⟩
  · rw [treeLines_eq clean]
    exact Layout.isFilled_statementListLines _
  · rw [tokens_eq, ← tokens_tree clean, treeLines_eq clean]
    exact Layout.contents_statementListLines _
  · rw [tokens_eq]
    exact fun token member => isRecut clean token (List.mem_of_mem_filter member)
  · rw [tokens_eq]
    exact fun token member => by simpa using List.of_mem_filter member
  · rw [comments_eq]
    intro comment member
    obtain ⟨token, present, rfl⟩ := List.mem_map.mp member
    obtain ⟨inText, isComment⟩ := List.mem_filter.mp present
    refine Token.IsRecut.of_unplaced_eq ?_ (isRecut clean token inText)
    rw [Token.unplaced_eq_unplaced_iff]
    exact ⟨beq_iff_eq.mp isComment, rfl⟩

/-- The lines of the layout of a text. -/
def layoutLines (text : String) : List TokenLine :=
  Layout.tokenLines (ofText text).tree
    (CommentedText.ofTokens (ofText text).tokens)

def layoutOf (text indent : String) : String :=
  String.ofList (TokenLine.renderAll indent
    (Layout.lineBreak text).toList (layoutLines text))

theorem toList_join_lines (indent newline : String)
    (lines : List Layout.PrintedLine) :
    (String.join (lines.map fun line =>
        line.render indent ++ newline)).toList =
      (lines.map fun line => (line.render indent).toList).flatMap
        fun line => line ++ newline.toList := by
  simp [List.flatMap_map]

/-- A text without syntax errors has a layout. -/
theorem format?_eq (clean : (ofText text).hasSyntaxErrors = false)
    (indent : String) :
    (ofText text).format? indent = some (layoutOf text indent) := by
  have lines := (fits clean).render_printedLines indent
  rw [format?, clean, if_neg Bool.false_ne_true]
  refine congrArg some ?_
  rw [← String.toList_inj, toList_join_lines, lines, layoutOf, layoutLines,
    TokenLine.renderAll, String.toList_ofList, List.flatMap_map]
  rfl

theorem isNewline_lineBreak (text : String) :
    IsNewline (Layout.lineBreak text).toList := by
  unfold Layout.lineBreak
  split
  · exact Or.inr rfl
  · exact Or.inl rfl

/-- Scanning a layout finds the tokens of its lines. -/
theorem scan_layoutOf (clean : (ofText text).hasSyntaxErrors = false)
    {indent : String} (isIndent : IsIndent indent) :
    Scan.ofText (layoutOf text indent) =
      ⟨TokenLine.placedFrom indent 0 (layoutLines text), []⟩ := by
  rw [Scan.ofText, layoutOf, String.toList_ofList]
  exact TokenLine.scanFrom_renderAll isIndent (isNewline_lineBreak text)
    (fits clean).isReadable 0

theorem tokens_layoutOf (clean : (ofText text).hasSyntaxErrors = false)
    {indent : String} (isIndent : IsIndent indent) :
    (ofText (layoutOf text indent)).tokens.map Token.unplaced =
      ((layoutLines text).flatMap TokenLine.tokens).map Token.unplaced := by
  rw [← TokenLine.map_unplaced_placedFrom indent 0]
  exact congrArg (fun scan => scan.tokens.map Token.unplaced)
    (scan_layoutOf clean isIndent)

theorem map_unplaced_withoutComments (tokens : List Token) :
    (Token.withoutComments tokens).map Token.unplaced =
      Token.withoutComments (tokens.map Token.unplaced) := by
  rw [Token.withoutComments, Token.withoutComments, List.filter_map]
  rfl

theorem commentTexts_map_unplaced (tokens : List Token) :
    Token.commentTexts (tokens.map Token.unplaced) =
      Token.commentTexts tokens := by
  rw [Token.commentTexts, Token.commentTexts, List.filter_map, List.map_map]
  rfl

theorem withoutComments_layoutOf
    (clean : (ofText text).hasSyntaxErrors = false) {indent : String}
    (isIndent : IsIndent indent) :
    (Token.withoutComments (ofText (layoutOf text indent)).tokens).map
        Token.unplaced =
      (Token.withoutComments (ofText text).tokens).map Token.unplaced := by
  rw [map_unplaced_withoutComments, tokens_layoutOf clean isIndent,
    ← map_unplaced_withoutComments, layoutLines,
    (fits clean).tokens_tokenLines.1]
  exact congrArg (List.map Token.unplaced)
    (CommentedText.map_token_attach [] _)

theorem commentTexts_layoutOf
    (clean : (ofText text).hasSyntaxErrors = false) {indent : String}
    (isIndent : IsIndent indent) :
    (Token.commentTexts (ofText (layoutOf text indent)).tokens).Perm
      (Token.commentTexts (ofText text).tokens) := by
  rw [← commentTexts_map_unplaced, tokens_layoutOf clean isIndent,
    commentTexts_map_unplaced]
  have comments := (fits clean).tokens_tokenLines.2
  rwa [CommentedText.ofTokens, CommentedText.comments_attach] at comments

/-- A layout is parsed as the text is. -/
theorem tree_layoutOf (clean : (ofText text).hasSyntaxErrors = false)
    {indent : String} (isIndent : IsIndent indent) :
    (ofText (layoutOf text indent)).hasSyntaxErrors = false ∧
      (ofText (layoutOf text indent)).tree.mapTokens Token.unplaced =
        (ofText text).tree.mapTokens Token.unplaced := by
  have scanned : (Scan.ofText (layoutOf text indent)).diagnostics = [] := by
    rw [scan_layoutOf clean isIndent]
  have recut : ∀ token ∈ (ofText (layoutOf text indent)).tokens,
      token.IsRecut := fun _ member => Token.isRecut_of_mem_scan scanned member
  obtain ⟨trees, problems⟩ := Parse.relocated_withoutComments recut
    (isRecut clean) (withoutComments_layoutOf clean isIndent)
  have quiet := ((hasSyntaxErrors_eq_false_iff text).mp clean).2
  have noProblems : (Parse.ofTokens
      (ofText text).tokens).diagnostics.map Diagnostic.problem = [] :=
    List.map_eq_nil_iff.mpr quiet
  rw [noProblems, List.map_eq_nil_iff] at problems
  exact ⟨(hasSyntaxErrors_eq_false_iff _).mpr ⟨scanned, problems⟩, trees⟩

/-- Two texts without syntax errors have the same tokens in the same order, the
same comments, each as often, and mean the same document with its blocks in the
same order. -/
structure SameContent (first second : String) : Prop where
  clean : (ofText first).hasSyntaxErrors = false
  otherClean : (ofText second).hasSyntaxErrors = false
  tokens : (Token.withoutComments (ofText first).tokens).map Token.unplaced =
    (Token.withoutComments (ofText second).tokens).map Token.unplaced
  comments : (Token.commentTexts (ofText first).tokens).Perm
    (Token.commentTexts (ofText second).tokens)
  document : (ofText first).document.mapTokens Token.unplaced =
    (ofText second).document.mapTokens Token.unplaced
  blocks : (ofText first).document.blocks.map
      (DocumentBlock.mapTokens Token.unplaced) =
    (ofText second).document.blocks.map
      (DocumentBlock.mapTokens Token.unplaced)

/-- Formatting loses nothing. -/
theorem format_lossless
    (clean : (ofText text).hasSyntaxErrors = false) {indent : String}
    (isIndent : IsIndent indent) :
    ∃ layout, (ofText text).format? indent = some layout ∧
      SameContent layout text := by
  obtain ⟨stillClean, trees⟩ := tree_layoutOf clean isIndent
  obtain ⟨documents, blocks⟩ :=
    Document.relocated trees (isOrdered stillClean) (isOrdered clean)
  exact ⟨layoutOf text indent, format?_eq clean indent, stillClean, clean,
    withoutComments_layoutOf clean isIndent,
    commentTexts_layoutOf clean isIndent, documents, blocks⟩

/-- An action with comments at every level, one of them behind a comma. -/
def commentedAction : String :=
  "# a\naction \"x\" \x7b # b\nuses=\"./y\" # c\nneeds=[\"x\",# d\n]" ++
    " env=\x7bA=\"1\"// e\n\x7d\n\x7d\r\n# f"

theorem format_lossless_commentedAction :
    (ofText commentedAction).hasSyntaxErrors = false ∧ IsIndent " \t" ∧
      ∃ layout, (ofText commentedAction).format? " \t" = some layout ∧
        SameContent layout commentedAction := by
  have clean : (ofText commentedAction).hasSyntaxErrors = false :=
    (hasSyntaxErrors_eq_false_iff commentedAction).mpr
      ⟨by decide +kernel, by decide +kernel⟩
  have isIndent : IsIndent " \t" := by
    simp [IsIndent]
  exact ⟨clean, isIndent, format_lossless clean isIndent⟩

end Compilation

end WorkflowLang
