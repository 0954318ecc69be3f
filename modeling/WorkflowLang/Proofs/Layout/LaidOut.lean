import WorkflowLang.Proofs.Layout.BlankLines
import WorkflowLang.Proofs.Layout.Columns

/-!
# What a layout looks like

A layout is read from its own text: where the tokens of its tree stand and which of
its lines are empty (`IsLaidOut`).  The layout of every text without syntax errors is
laid out in this sense (`Compilation.format_isLaidOut`).
-/

namespace WorkflowLang

open Layout (TokenLine)

/-- A text is laid out. -/
structure IsLaidOut (indent layout : String) : Prop where
  /-- Each piece stands on one line and begins it, as deep as it should. -/
  pieces : ∀ piece ∈ (Compilation.ofText layout).tree.pieces,
    ∃ number first,
      piece.StandsOn indent (Text.lines layout.toList) number first
  /-- The equal signs of a block stand in one column. -/
  properties : ∀ block ∈ (Compilation.ofText layout).tree.blocks,
    ∃ column, ∀ property ∈ block.properties,
      property.equal.span.start.column = column
  /-- The equal signs of an object stand in one column. -/
  members : ∀ block ∈ (Compilation.ofText layout).tree.blocks,
    ∀ property ∈ block.properties,
      ∃ column, ∀ member ∈ property.value.objectMembers,
        member.equal.span.start.column = column
  head : (Text.lines layout.toList).head? ≠ some []
  apart : (Text.lines layout.toList).IsChain fun first second =>
    first ≠ [] ∨ second ≠ []
  /-- One line between a statement and the next is empty. -/
  statements : (Compilation.ofText layout).tree.statements.IsChain
    fun first second => ∃! number,
      (Text.lines layout.toList)[number]? = some [] ∧
        (∀ token ∈ first.tokens, token.span.finish.line < number) ∧
          ∀ token ∈ second.tokens, number < token.span.start.line

namespace Compilation

variable {text : String}

theorem lines_layoutOf (clean : (ofText text).hasSyntaxErrors = false)
    {indent : String} (isIndent : IsIndent indent) :
    Text.lines (layoutOf text indent).toList =
      (layoutLines text).map (TokenLine.render indent) := by
  rw [layoutOf, String.toList_ofList]
  exact TokenLine.lines_renderAll isIndent (isNewline_lineBreak text)
    (fits clean).isReadable

theorem render_ne_nil (clean : (ofText text).hasSyntaxErrors = false)
    (indent : String) {line : TokenLine} (member : line ∈ layoutLines text)
    (filled : ¬line.IsEmpty) : line.render indent ≠ [] :=
  mt (((fits clean).isReadable line member).render_eq_nil_iff indent).mp filled

/-- The layout of a text has one empty line between a statement and the next. -/
theorem isChain_statements_layoutOf
    (clean : (ofText text).hasSyntaxErrors = false) {indent : String}
    (isIndent : IsIndent indent) :
    (ofText (layoutOf text indent)).tree.statements.IsChain
      fun first second => ∃! number,
        Layout.IsGap (layoutLines text) first second number := by
  have stillClean := (tree_layoutOf clean isIndent).1
  have plan := (treeLines_eq_standing clean isIndent).symm.trans
    (treeLines_eq stillClean)
  obtain ⟨back, lines⟩ : ∃ back, layoutLines text =
      [] ++ (settledLines text).1.flatMap Layout.SettledLine.lines ++ back := by
    rw [layoutLines_eq, Layout.sheet, List.append_assoc, List.append_assoc]
    exact ⟨_, rfl⟩
  rw [lines]
  exact Layout.isChain_isGap isIndent plan

theorem isLaidOut_layoutOf (clean : (ofText text).hasSyntaxErrors = false)
    {indent : String} (isIndent : IsIndent indent) :
    IsLaidOut indent (layoutOf text indent) := by
  have lines := lines_layoutOf clean isIndent
  obtain ⟨head, apart⟩ := (isSpaced_layoutLines clean).head_and_apart
  refine ⟨fun piece member => ?_, fun block isBlock => ⟨_, fun _ member =>
    column_equal_property clean isIndent isBlock member⟩,
    fun block isBlock property isProperty => ⟨_, fun _ member =>
      column_equal_member clean isIndent isBlock isProperty member⟩, ?_, ?_, ?_⟩
  · rw [lines]
    exact exists_standsOn clean isIndent member
  · rw [lines, List.head?_map]
    intro isEmpty
    obtain ⟨line, isFirst, nothing⟩ := Option.map_eq_some_iff.mp isEmpty
    exact render_ne_nil clean indent (List.mem_of_head? isFirst)
      (head line isFirst) nothing
  · rw [lines, List.isChain_map]
    refine apart.imp_of_mem_imp fun first second isFirst isSecond filled => ?_
    exact filled.imp (render_ne_nil clean indent isFirst)
      (render_ne_nil clean indent isSecond)
  · rw [lines]
    refine (isChain_statements_layoutOf clean isIndent).imp
      fun first second gap => ?_
    refine (existsUnique_congr fun number => ?_).mp gap
    refine and_congr_left' ?_
    rw [List.getElem?_map, Option.map_eq_some_iff]
    refine exists_congr fun line => and_congr_right fun isLine => ?_
    exact (((fits clean).isReadable line
      (List.mem_of_getElem? isLine)).render_eq_nil_iff indent).symm

/-- The layout of a text without syntax errors is laid out. -/
theorem format_isLaidOut (clean : (ofText text).hasSyntaxErrors = false)
    {indent : String} (isIndent : IsIndent indent) :
    ∃ layout, (ofText text).format? indent = some layout ∧
      IsLaidOut indent layout :=
  ⟨layoutOf text indent, format?_eq clean indent,
    isLaidOut_layoutOf clean isIndent⟩

/-- Two blocks with lists, comments and a version. -/
def scatteredText : String :=
  "version=0 # a\n# b\nworkflow \"w\" \x7b on=\"push\" resolves=[\"x\",\"y\"] \x7d" ++
    " action \"x\" \x7b # c\n env=\x7bA=\"1\", LONG=\"2\"\x7d uses=\"./y\"\n# d\n\x7d"

theorem format_isLaidOut_scatteredText :
    (ofText scatteredText).hasSyntaxErrors = false ∧ IsIndent "  " ∧
      ∃ layout, (ofText scatteredText).format? "  " = some layout ∧
        IsLaidOut "  " layout := by
  have clean : (ofText scatteredText).hasSyntaxErrors = false :=
    (hasSyntaxErrors_eq_false_iff scatteredText).mpr
      ⟨by decide +kernel, by decide +kernel⟩
  have isIndent : IsIndent "  " := by
    simp [IsIndent]
  exact ⟨clean, isIndent, format_isLaidOut clean isIndent⟩

end Compilation

end WorkflowLang
