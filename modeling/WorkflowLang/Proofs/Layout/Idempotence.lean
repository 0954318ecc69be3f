import WorkflowLang.Proofs.Layout.Lossless
import WorkflowLang.Proofs.Layout.Rereading
import WorkflowLang.Proofs.Layout.Waiting

/-!
# Formatting twice

Laying out a layout again settles its comments where they stand, so the lines of
tokens stay what they are.  Comments that were still waiting behind the last
line now close the text instead, and a blank line is put before them.  Hence a
layout is stable exactly when no comment waited
(`Compilation.format_again_eq_iff`).
-/

namespace WorkflowLang

open Layout (CommentedText SettledLine TokenLine commentToken)

namespace Compilation

variable {text : String}

/-- The settled lines of a text, and the comments that wait behind them. -/
def settledLines (text : String) : List SettledLine × List String :=
  Layout.settle [] (CommentedText.ofTokens (ofText text).tokens).tokens
    (Layout.treeLines (ofText text).tree)

def closingComments (text : String) : List String :=
  (CommentedText.ofTokens (ofText text).tokens).closing

theorem layoutLines_eq (text : String) :
    layoutLines text = Layout.sheet (settledLines text).1
      (settledLines text).2 (closingComments text) := rfl

/-- The plan of a layout is that of the text, moved. -/
theorem treeLines_layoutOf (clean : (ofText text).hasSyntaxErrors = false)
    {indent : String} (isIndent : IsIndent indent) :
    (Layout.treeLines (ofText (layoutOf text indent)).tree).map
        (Layout.PlannedLine.mapTokens Token.unplaced) =
      (Layout.treeLines (ofText text).tree).map
        (Layout.PlannedLine.mapTokens Token.unplaced) := by
  obtain ⟨stillClean, trees⟩ := tree_layoutOf clean isIndent
  exact treeLines_congr stillClean clean trees

/-- In a layout the comments stay where they settled, and none waits: those that
waited close the text. -/
theorem settledLines_layoutOf
    (clean : (ofText text).hasSyntaxErrors = false) {indent : String}
    (isIndent : IsIndent indent) :
    (settledLines (layoutOf text indent)).1.map
        (SettledLine.mapTokens Token.unplaced) =
      (settledLines text).1.map (SettledLine.mapTokens Token.unplaced) ∧
    (settledLines (layoutOf text indent)).2 = [] ∧
    closingComments (layoutOf text indent) =
      (settledLines text).2 ++ closingComments text := by
  have stillClean := (tree_layoutOf clean isIndent).1
  have tokens : (ofText (layoutOf text indent)).tokens =
      TokenLine.placedFrom indent 0 (layoutLines text) :=
    congrArg Scan.tokens (scan_layoutOf clean isIndent)
  obtain ⟨attached, closed⟩ := Layout.attach_sheet isIndent
    (fits clean).isSound (settledLines text).2 (closingComments text)
  -- Settling the comments of the text along the plan of the layout.
  have along := Layout.settle_mapTokens Token.unplaced []
    (CommentedText.ofTokens (ofText text).tokens).tokens
    (Layout.treeLines (ofText (layoutOf text indent)).tree)
  rw [treeLines_layoutOf clean isIndent, Layout.settle_mapTokens,
    Prod.mk.injEq] at along
  have placed : (CommentedText.ofTokens
      (ofText (layoutOf text indent)).tokens).tokens.map
        Layout.CommentedToken.besides =
      (Layout.settle [] (CommentedText.ofTokens (ofText text).tokens).tokens
        (Layout.treeLines
          (ofText (layoutOf text indent)).tree)).1.flatMap
            SettledLine.besides := by
    rw [← Layout.besides_congr along.1, tokens]
    exact attached
  have again := Layout.settle_again (fits stillClean).isFilled placed
  refine ⟨?_, ?_, ?_⟩
  · rw [settledLines, again]
    exact along.1.symm
  · rw [settledLines, again]
  · rw [closingComments, tokens]
    exact closed

theorem render_layoutLines_layoutOf
    (clean : (ofText text).hasSyntaxErrors = false) {indent : String}
    (isIndent : IsIndent indent) :
    (layoutLines (layoutOf text indent)).map (TokenLine.render indent) =
      (Layout.sheet (settledLines text).1 []
        ((settledLines text).2 ++ closingComments text)).map
          (TokenLine.render indent) := by
  obtain ⟨settled, waiting, closing⟩ := settledLines_layoutOf clean isIndent
  rw [layoutLines_eq, waiting, closing]
  exact Layout.render_sheet_congr settled indent _ _

theorem lineBreak_layoutOf (clean : (ofText text).hasSyntaxErrors = false)
    {indent : String} (isIndent : IsIndent indent)
    (nonempty : layoutLines text ≠ []) :
    Layout.lineBreak (layoutOf text indent) = Layout.lineBreak text :=
  Layout.lineBreak_renderAll isIndent (fits clean).isReadable nonempty

theorem layoutLines_ne_nil (waits : (settledLines text).2 ≠ []) :
    layoutLines text ≠ [] := by
  intro isEmpty
  rw [layoutLines_eq, Layout.sheet, List.append_eq_nil_iff,
    List.append_eq_nil_iff, List.append_eq_nil_iff] at isEmpty
  exact Layout.settle_ne_nil waits isEmpty.1.1.1

/-- Where a comment waited, the second layout has a blank line more. -/
theorem layoutOf_layoutOf_ne (clean : (ofText text).hasSyntaxErrors = false)
    {indent : String} (isIndent : IsIndent indent)
    (waits : (settledLines text).2 ≠ []) :
    layoutOf (layoutOf text indent) indent ≠ layoutOf text indent := by
  obtain ⟨first, waiting, waiting_eq⟩ := List.exists_cons_of_ne_nil waits
  have member : first ∈ (settledLines text).2 := by
    rw [waiting_eq]
    exact List.mem_cons_self
  have recut : (commentToken first).IsRecut := (fits clean).mem_comments
    (List.mem_append_right _ (List.mem_append_left _ member))
  have lineBreak_eq :=
    lineBreak_layoutOf clean isIndent (layoutLines_ne_nil waits)
  intro same
  refine Layout.renderAll_sheet_ne indent (isNewline_lineBreak text)
    (Layout.settle_ne_nil waits) recut waiting (closingComments text) ?_
  rw [layoutOf, lineBreak_eq, Layout.renderAll_eq,
    render_layoutLines_layoutOf clean isIndent, ← Layout.renderAll_eq, layoutOf,
    ← String.toList_inj, String.toList_ofList, String.toList_ofList,
    layoutLines_eq, waiting_eq] at same
  exact same

theorem layoutOf_layoutOf (clean : (ofText text).hasSyntaxErrors = false)
    {indent : String} (isIndent : IsIndent indent)
    (settled : (settledLines text).2 = []) :
    layoutOf (layoutOf text indent) indent = layoutOf text indent := by
  have same : (layoutLines (layoutOf text indent)).map
      (TokenLine.render indent) =
        (layoutLines text).map (TokenLine.render indent) := by
    rw [render_layoutLines_layoutOf clean isIndent, layoutLines_eq text, settled]
    rfl
  by_cases isEmpty : layoutLines text = []
  · rw [isEmpty, List.map_nil] at same
    rw [layoutOf, Layout.renderAll_eq, same, layoutOf, isEmpty]
    rfl
  · rw [layoutOf, lineBreak_layoutOf clean isIndent isEmpty,
      Layout.renderAll_eq, same, ← Layout.renderAll_eq, layoutOf]

/-- A layout is its own layout exactly when no comment waited. -/
theorem layoutOf_layoutOf_eq_iff
    (clean : (ofText text).hasSyntaxErrors = false) {indent : String}
    (isIndent : IsIndent indent) :
    layoutOf (layoutOf text indent) indent = layoutOf text indent ↔
      (settledLines text).2 = [] :=
  ⟨fun same => Classical.byContradiction fun waits =>
    layoutOf_layoutOf_ne clean isIndent waits same,
    layoutOf_layoutOf clean isIndent⟩

/-- The last three tokens of a text, with their comments. -/
def lastThree (text : String) : List Layout.CommentedToken :=
  let commented := (CommentedText.ofTokens (ofText text).tokens).tokens
  commented.drop (commented.length - 3)

/-- Formatting a second time changes nothing, except when a version statement
ends the document and its comments do not fit on its line: those that are left
over move down behind a blank line. -/
theorem format_again_eq_iff
    (clean : (ofText text).hasSyntaxErrors = false) {indent : String}
    (isIndent : IsIndent indent) :
    ∃ layout again, (ofText text).format? indent = some layout ∧
      (ofText layout).format? indent = some again ∧
      (again = layout ↔
        ∀ version,
          (ofText text).tree.statements.getLast? = some (.version version) →
            Layout.FitOnLine (lastThree text)) := by
  have stillClean := (tree_layoutOf clean isIndent).1
  refine ⟨layoutOf text indent, layoutOf (layoutOf text indent) indent,
    format?_eq clean indent, format?_eq stillClean indent, ?_⟩
  have covers := (fits clean).contents_eq
  rw [treeLines_eq clean] at covers
  rw [layoutOf_layoutOf_eq_iff clean isIndent, settledLines,
    treeLines_eq clean, Layout.settle_waiting_eq_nil_iff covers]
  rfl

/-- A version with two comments between its tokens. -/
def commentedVersion : String := "version\n# a\n=\n# b\n0"

theorem format_again_commentedVersion :
    (ofText commentedVersion).hasSyntaxErrors = false ∧ IsIndent "  " ∧
      ∃ layout again,
        (ofText commentedVersion).format? "  " = some layout ∧
          (ofText layout).format? "  " = some again ∧
          (again = layout ↔
            ∀ version, (ofText commentedVersion).tree.statements.getLast? =
              some (.version version) →
                Layout.FitOnLine (lastThree commentedVersion)) := by
  have clean : (ofText commentedVersion).hasSyntaxErrors = false := by
    decide +kernel
  have isIndent : IsIndent "  " := by
    simp [IsIndent]
  exact ⟨clean, isIndent, format_again_eq_iff clean isIndent⟩

/-- Its comments are left over, and the second layout has a blank line more. -/
theorem format_changes_layout :
    (ofText commentedVersion).format? "  " =
        some "version = 0\n# a\n# b\n" ∧
      (ofText "version = 0\n# a\n# b\n").format? "  " =
        some "version = 0\n\n# a\n# b\n" := by
  constructor
  · decide +kernel
  · decide +kernel

end Compilation

end WorkflowLang
