import WorkflowLang.Report
import WorkflowLang.Proofs.Text.Context

/-!
# Finding the rows of an excerpt again

A report gets its excerpt as a text.  It cuts the text into lines, cuts each line
at the first separator, and takes a line with a blank gutter for carets.  The
source may have separators in it, and lines that are empty or look like a gutter.
The pieces are the right ones all the same: no row has a break in it, no gutter has
a bar in it, and the gutters of source lines end in digits.  So the rows of an
excerpt are styled by what they are (`Report.Content.excerpt_eq`).
-/

namespace WorkflowLang

namespace Text

/-- A line feed ends a line that has no break in it. -/
theorem fedLines_append_feed {line : List Char}
    (oneLine : ∀ character ∈ line, isLineBreak character = false)
    (rest : List Char) :
    fedLines (line ++ '\n' :: rest) = line :: fedLines rest := by
  induction line with
  | nil => rfl
  | cons character line inductionHypothesis =>
      rw [List.forall_mem_cons] at oneLine
      have noFeed : ¬(character == '\n') = true := by
        rintro isFeed
        rw [eq_of_beq isFeed] at oneLine
        exact absurd oneLine.1 (by decide)
      rw [List.cons_append, fedLines, if_neg noFeed,
        inductionHypothesis oneLine.2]
      rintro others rfl
      exact absurd oneLine.1 (by decide)

/-- Texts without breaks, each ended by a line feed, are the lines of the whole. -/
theorem fedLines_flatMap {lines : List (List Char)}
    (oneLine : ∀ line ∈ lines, ∀ character ∈ line,
      isLineBreak character = false) :
    fedLines (lines.flatMap fun line => line ++ ['\n']) = lines := by
  induction lines with
  | nil => rfl
  | cons line others inductionHypothesis =>
      rw [List.forall_mem_cons] at oneLine
      rw [List.flatMap_cons, List.append_assoc, List.singleton_append,
        fedLines_append_feed oneLine.1, inductionHypothesis oneLine.2]

theorem isWhiteSpace_eq_false_of_isDigit {character : Char}
    (isDigit : character.isDigit = true) : isWhiteSpace character = false := by
  obtain ⟨low, high⟩ := Char.isDigit_iff_toNat.mp isDigit
  change 48 ≤ character.toNat at low
  change character.toNat ≤ 57 at high
  simp only [isWhiteSpace, whiteSpaceRanges, List.any_cons, List.any_nil,
    Bool.or_eq_false_iff, Bool.and_eq_false_iff, decide_eq_false_iff_not,
    and_true]
  omega

theorem isDigit_of_mem_digits {number : Nat} {character : Char}
    (member : character ∈ (toString number).toList) :
    character.isDigit = true := by
  rw [toList_digits] at member
  exact Nat.isDigit_of_mem_toDigits (by decide) (by decide) member

end Text

namespace ExcerptRow

/-- A gutter has blanks and digits in it. -/
theorem blank_or_isDigit_of_mem_gutter {width : Nat} {row : ExcerptRow}
    {character : Char} (member : character ∈ (row.gutter width).toList) :
    character = ' ' ∨ character.isDigit = true := by
  cases row with
  | source number text =>
      rw [gutter, String.toList_append, String.toList_ofList] at member
      rcases List.mem_append.mp member with blank | digit
      · exact Or.inl (List.eq_of_mem_replicate blank)
      · exact Or.inr (Text.isDigit_of_mem_digits digit)
  | carets offset count =>
      rw [gutter, String.toList_ofList] at member
      exact Or.inl (List.eq_of_mem_replicate member)

/-- A character that is no blank and no digit does not stand in a gutter. -/
theorem not_mem_gutter {character : Char} (notBlank : character ≠ ' ')
    (notDigit : character.isDigit = false) (width : Nat) (row : ExcerptRow) :
    character ∉ (row.gutter width).toList := by
  intro member
  rcases blank_or_isDigit_of_mem_gutter member with blank | digit
  · exact notBlank blank
  · exact absurd digit (Bool.eq_false_iff.mp notDigit)

theorem isBlank_gutter_carets (width offset count : Nat) :
    ((carets offset count).gutter width).toList.all Text.isWhiteSpace =
      true := by
  rw [gutter, String.toList_ofList, List.all_replicate]
  split <;> decide

theorem not_isBlank_gutter_source (width number : Nat) (text : List Char) :
    ((source number text).gutter width).toList.all Text.isWhiteSpace =
      false := by
  obtain ⟨digit, digits, isFirst⟩ :=
    List.exists_cons_of_ne_nil (Nat.toDigits_ne_nil (n := number) (b := 10))
  have member : digit ∈ (toString number).toList := by
    rw [Text.toList_digits, isFirst]
    exact List.mem_cons_self
  have notBlank := Text.isWhiteSpace_eq_false_of_isDigit
    (Text.isDigit_of_mem_digits member)
  refine List.all_eq_false.mpr ⟨digit, ?_, Bool.eq_false_iff.mp notBlank⟩
  rw [gutter, String.toList_append]
  exact List.mem_append_right _ member

theorem toList_render (width : Nat) (row : ExcerptRow) :
    (row.render width).toList =
      (row.gutter width).toList ++
        (Report.separator ++ row.content.toList) := by
  rw [render, String.toList_append, String.toList_append, List.append_assoc]
  rfl

/-- The rows of an excerpt stand on one line each. -/
theorem oneLine_render {sourceText : List Char} {span : Span} {context : Nat}
    {shown : Excerpt}
    (found : Excerpt.around sourceText span context = .ok shown)
    {row : ExcerptRow} (isShown : row ∈ shown.rows) (width : Nat) :
    ∀ character ∈ (row.render width).toList,
      Text.isLineBreak character = false := by
  have gutterLine : ∀ character ∈ (row.gutter width).toList,
      Text.isLineBreak character = false := by
    intro character member
    have notEnding {ending : Char} (notBlank : ending ≠ ' ')
        (notDigit : ending.isDigit = false) : (character == ending) = false :=
      beq_eq_false_iff_ne.mpr fun same =>
        not_mem_gutter notBlank notDigit width row (same ▸ member)
    exact Bool.or_eq_false_iff.mpr
      ⟨notEnding (by decide) (by decide), notEnding (by decide) (by decide)⟩
  have contentLine : ∀ character ∈ row.content.toList,
      Text.isLineBreak character = false := by
    cases row with
    | source number text =>
        obtain ⟨index, -, -, isLine⟩ :=
          Excerpt.exists_index_of_mem found isShown
        rw [content, String.toList_ofList]
        exact (Text.splitsInto_lines sourceText).oneLine text
          (List.mem_of_getElem? isLine)
    | carets offset count =>
        rw [content, String.toList_ofList, List.forall_mem_append]
        refine ⟨fun character member => ?_, fun character member => ?_⟩ <;>
          rw [List.eq_of_mem_replicate member] <;> rfl
  rw [toList_render, List.forall_mem_append, List.forall_mem_append]
  exact ⟨gutterLine, by simp [Report.separator, Text.isLineBreak], contentLine⟩

end ExcerptRow

namespace Report

/-- The first separator of a line is the one behind its gutter. -/
theorem cutAt?_separator {gutter : List Char} (noBar : '|' ∉ gutter)
    (content : List Char) :
    Text.cutAt? separator (gutter ++ (separator ++ content)) =
      some (gutter, content) := by
  induction gutter with
  | nil => rfl
  | cons character gutter inductionHypothesis =>
      rw [List.mem_cons, not_or] at noBar
      -- Where a separator would begin, its bar would be in the gutter or
      -- the blank behind the gutter.
      have notHere : ¬separator.isPrefixOf
          (character :: (gutter ++ (separator ++ content))) = true := by
        rw [List.isPrefixOf_iff_prefix]
        intro begins
        have bar := (List.cons_prefix_cons.mp begins).2
        cases gutter with
        | nil => exact absurd (List.cons_prefix_cons.mp bar).1 (by decide)
        | cons next gutter =>
            exact noBar.2 (List.mem_cons.mpr
              (Or.inl (List.cons_prefix_cons.mp bar).1))
      rw [List.cons_append, Text.cutAt?, if_neg notHere,
        inductionHypothesis noBar.2]
      rfl

/-- A row of an excerpt: its bar and the number of a source line are blue, and carets
are red. -/
def styledRow (isColored : Bool) (width : Nat) (row : ExcerptRow) : String :=
  let bar := " " ++ Style.blue.paint isColored "|" ++ " "
  match row with
  | .source _ _ =>
      Style.blue.paint isColored (row.gutter width) ++ bar ++ row.content
  | .carets _ _ =>
      row.gutter width ++ bar ++ Style.red.paint isColored row.content

theorem excerptLine_render (isColored : Bool) (width : Nat)
    (row : ExcerptRow) :
    excerptLine isColored (row.render width).toList =
      styledRow isColored width row := by
  have found := cutAt?_separator
    (ExcerptRow.not_mem_gutter (by decide) (by decide) width row)
    row.content.toList
  rw [excerptLine, ExcerptRow.toList_render, found]
  cases row with
  | source number text =>
      simp only [ExcerptRow.not_isBlank_gutter_source, styledRow,
        String.ofList_toList, Bool.false_eq_true, if_false]
  | carets offset count =>
      simp only [ExcerptRow.isBlank_gutter_carets, styledRow,
        String.ofList_toList, if_true]

theorem fedLines_render {source : List Char} {span : Span} {context : Nat}
    {shown : Excerpt} (found : Excerpt.around source span context = .ok shown) :
    Text.fedLines shown.render.toList =
      shown.rows.map fun row => (row.render shown.gutterWidth).toList := by
  rw [Excerpt.toList_render]
  refine Text.fedLines_flatMap (List.forall_mem_map.mpr fun row isShown => ?_)
  exact ExcerptRow.oneLine_render found isShown _

/-- The excerpt in a report has its rows styled by what they are, whatever the lines
of the source look like. -/
theorem Content.excerpt_eq {content : Content} {source : String}
    (hasSource : content.source = some source) (isColored : Bool) :
    content.excerpt isColored =
      (Excerpt.around source.toList content.span content.context).map
        fun shown =>
          String.join (shown.rows.map fun row =>
            styledRow isColored shown.gutterWidth row ++ "\n") := by
  rw [excerpt, hasSource]
  cases found : Excerpt.around source.toList content.span content.context with
  | error abort => simp only [Excerpt.textAround, found, Except.map]
  | ok shown =>
      simp only [Excerpt.textAround, found, Except.map, fedLines_render found,
        List.map_map, Function.comp_def, excerptLine_render]

end Report
end WorkflowLang
