import Mathlib.Data.List.Chain
import WorkflowLang.Proofs.Layout.Standing
import WorkflowLang.Proofs.Text.Lines

/-!
# Blank lines of a layout

A plan has blank lines between others only, never two of them together, and settling
comments adds lines that are not blank.  So it is with the lines of a layout
(`Compilation.isSpaced_layoutLines`).  Between two statements there is one blank line
and besides it the comments before the second statement
(`Layout.isChain_isGap`).
-/

namespace WorkflowLang
namespace Layout

/-! ## Gaps of one line -/

section

variable {Line Printed : Type} {Blank : Line → Prop}

/-- Among some lines there are gaps of one line each, none of them before the first
line or behind the last one. -/
inductive IsSpaced (Blank : Line → Prop) : List Line → Prop
  | nothing : IsSpaced Blank []
  | line {line : Line} {others : List Line} :
      ¬Blank line → IsSpaced Blank others → IsSpaced Blank (line :: others)
  | gap {line : Line} {others : List Line} (gap : Line) :
      ¬Blank line → others ≠ [] → IsSpaced Blank others →
        IsSpaced Blank (line :: gap :: others)

namespace IsSpaced

theorem of_forall {lines : List Line} (filled : ∀ line ∈ lines, ¬Blank line) :
    IsSpaced Blank lines := by
  induction lines with
  | nil => exact .nothing
  | cons line others inductionHypothesis =>
      obtain ⟨here, behind⟩ := List.forall_mem_cons.mp filled
      exact .line here (inductionHypothesis behind)

theorem append {first second : List Line} (spaced : IsSpaced Blank first)
    (alsoSpaced : IsSpaced Blank second) : IsSpaced Blank (first ++ second) := by
  induction spaced with
  | nothing => exact alsoSpaced
  | line filled _ inductionHypothesis => exact .line filled inductionHypothesis
  | gap gap filled nonempty _ inductionHypothesis =>
      exact .gap gap filled (List.append_ne_nil_of_left_ne_nil nonempty _)
        inductionHypothesis

theorem append_gap {first second : List Line} (spaced : IsSpaced Blank first)
    (nonempty : first ≠ []) (gap : Line) (others : second ≠ [])
    (alsoSpaced : IsSpaced Blank second) :
    IsSpaced Blank (first ++ gap :: second) := by
  induction spaced with
  | nothing => exact absurd rfl nonempty
  | @line line behind filled _ inductionHypothesis =>
      by_cases isLast : behind = []
      · rw [isLast]
        exact .gap gap filled others alsoSpaced
      · exact .line filled (inductionHypothesis isLast)
  | gap between filled behind _ inductionHypothesis =>
      exact .gap between filled (List.append_ne_nil_of_left_ne_nil behind _)
        (inductionHypothesis behind)

/-- Gaps stay gaps when every line is printed as some lines, a blank one as one. -/
theorem flatMap {lines : List Line} (spaced : IsSpaced Blank lines)
    {Empty : Printed → Prop} {print : Line → List Printed}
    (nonempty : ∀ line, print line ≠ [])
    (single : ∀ line, Blank line → ∃ printed, print line = [printed])
    (filled : ∀ line ∈ lines, ¬Blank line →
      ∀ printed ∈ print line, ¬Empty printed) :
    IsSpaced Empty (lines.flatMap print) := by
  induction spaced with
  | nothing => exact .nothing
  | @line line _ isFilled _ inductionHypothesis =>
      obtain ⟨here, others⟩ := List.forall_mem_cons.mp filled
      exact (of_forall (here isFilled)).append (inductionHypothesis others)
  | @gap line others gap isFilled behind _ inductionHypothesis =>
      obtain ⟨first, second, others⟩ := (List.forall_mem_cons.trans
        (and_congr_right' List.forall_mem_cons)).mp filled
      have here := of_forall (first isFilled)
      have rest := inductionHypothesis others
      rw [List.flatMap_cons, List.flatMap_cons]
      by_cases isBlank : Blank gap
      · obtain ⟨printed, isPrinted⟩ := single gap isBlank
        obtain ⟨next, more, rfl⟩ := List.exists_cons_of_ne_nil behind
        rw [isPrinted, List.singleton_append]
        refine here.append_gap (nonempty line) printed ?_ rest
        exact List.append_ne_nil_of_left_ne_nil (nonempty next) _
      · exact here.append ((of_forall (second isBlank)).append rest)

/-- The first line is not blank, and of two lines that follow each other one is not. -/
theorem head_and_apart {lines : List Line} (spaced : IsSpaced Blank lines) :
    (∀ line ∈ lines.head?, ¬Blank line) ∧
      lines.IsChain fun first second => ¬Blank first ∨ ¬Blank second := by
  induction spaced with
  | nothing => simp
  | @line line others filled _ inductionHypothesis =>
      refine ⟨by simpa using filled, List.isChain_cons.mpr ⟨?_, ?_⟩⟩
      · exact fun _ _ => Or.inl filled
      · exact inductionHypothesis.2
  | @gap line others gap filled _ _ inductionHypothesis =>
      obtain ⟨head, apart⟩ := inductionHypothesis
      refine ⟨by simpa using filled, List.isChain_cons_cons.mpr
        ⟨Or.inl filled, List.isChain_cons.mpr ⟨?_, apart⟩⟩⟩
      exact fun next isNext => Or.inr (head next isNext)

end IsSpaced

end

/-! ## The gaps of a plan -/

/-- A planned line without tokens. -/
def PlannedLine.IsBlank (line : PlannedLine) : Prop :=
  line.shape = none

theorem filled_propertyLines (width : Nat) (property : Property) :
    ∀ line ∈ propertyLines width property, ¬line.IsBlank := by
  obtain ⟨key, equal, value⟩ := property
  cases value <;>
    simp [propertyLines, itemLines, memberLines, PlannedLine.IsBlank,
      PlannedLine.shape, or_imp, forall_and]

theorem propertyLines_ne_nil (width : Nat) (property : Property) :
    propertyLines width property ≠ [] := by
  obtain ⟨key, equal, value⟩ := property
  cases value <;> simp [propertyLines]

/-- The gaps between properties are behind other lines. -/
theorem isSpaced_laterPropertyLines (width : Nat) (previous : Property)
    (properties : List Property) {front : List PlannedLine}
    (nonempty : front ≠ []) (spaced : IsSpaced PlannedLine.IsBlank front) :
    IsSpaced PlannedLine.IsBlank
      (front ++ laterPropertyLines width previous properties) := by
  induction properties generalizing previous front with
  | nil => simpa [laterPropertyLines] using spaced
  | cons property others inductionHypothesis =>
      have here := IsSpaced.of_forall (filled_propertyLines width property)
      rw [laterPropertyLines, ← List.append_assoc, ← List.append_assoc]
      refine inductionHypothesis property ?_ ?_
      · simp [nonempty]
      · split
        · rw [List.append_assoc, List.singleton_append]
          exact spaced.append_gap nonempty _
            (propertyLines_ne_nil width property) here
        · rw [List.append_nil]
          exact spaced.append here

theorem isSpaced_statementLines (statement : Statement) :
    IsSpaced PlannedLine.IsBlank (statementLines statement) := by
  have single (depth commentDepth width : Nat) (planned : List Token) :
      IsSpaced PlannedLine.IsBlank
        [.tokens depth commentDepth width planned] :=
    .of_forall (by simp [PlannedLine.IsBlank, PlannedLine.shape])
  cases statement with
  | version version => exact single _ _ _ _
  | block block =>
      refine IsSpaced.append ?_ (single _ _ _ _)
      unfold bodyLines
      split
      · exact single _ _ _ _
      · rename_i first others _
        rw [← List.cons_append]
        refine isSpaced_laterPropertyLines _ _ _ (by simp) ?_
        exact (single _ _ _ _).append (.of_forall (filled_propertyLines _ _))

theorem statementLines_ne_nil (statement : Statement) :
    statementLines statement ≠ [] := by
  cases statement <;> simp [statementLines]

/-- In a plan there are only gaps of one line. -/
theorem isSpaced_statementListLines (statements : List Statement) :
    IsSpaced PlannedLine.IsBlank (statementListLines statements) := by
  fun_induction statementListLines statements with
  | case1 => exact .nothing
  | case2 statement => exact isSpaced_statementLines statement
  | case3 statement others several inductionHypothesis =>
      refine (isSpaced_statementLines statement).append_gap
        (statementLines_ne_nil statement) _ ?_ inductionHypothesis
      cases others with
      | nil => exact absurd rfl several
      | cons next others =>
          have present := statementLines_ne_nil next
          cases others <;> simp [statementListLines, present]

/-! ## The gaps of printed lines -/

/-- Lines of the same shapes have the same gaps. -/
theorem IsSpaced.congr {Line Other Shape : Type} {Blank : Shape → Prop}
    {shape : Line → Shape} {otherShape : Other → Shape} {lines : List Line}
    (spaced : IsSpaced (fun line => Blank (shape line)) lines)
    {others : List Other}
    (same : lines.map shape = others.map otherShape) :
    IsSpaced (fun line => Blank (otherShape line)) others := by
  induction spaced generalizing others with
  | nothing =>
      rw [List.map_eq_nil_iff.mp same.symm]
      exact .nothing
  | line filled _ inductionHypothesis =>
      obtain ⟨other, behind, rfl, isShape, same⟩ :=
        List.map_eq_cons_iff.mp same.symm
      exact .line (isShape ▸ filled) (inductionHypothesis same.symm)
  | gap gap filled nonempty _ inductionHypothesis =>
      obtain ⟨other, rest, rfl, isShape, same⟩ :=
        List.map_eq_cons_iff.mp same.symm
      obtain ⟨otherGap, behind, rfl, _, same⟩ := List.map_eq_cons_iff.mp same
      refine .gap otherGap (isShape ▸ filled) ?_ (inductionHypothesis same.symm)
      rintro rfl
      exact nonempty (List.map_eq_nil_iff.mp same.symm)

/-- A line of a layout without tokens. -/
def TokenLine.IsEmpty (line : TokenLine) : Prop :=
  line.tokens = []

theorem filled_ofComment (depth : Nat) (comments : List String) :
    ∀ line ∈ comments.map (TokenLine.ofComment depth), ¬line.IsEmpty := by
  simp [TokenLine.ofComment, TokenLine.IsEmpty]

/-- The lines printed for settled lines have the gaps of these. -/
theorem isSpaced_lines {settled : List SettledLine}
    (sound : ∀ line ∈ settled, line.IsSound)
    (spaced : IsSpaced (fun line : SettledLine => line.shape = none) settled) :
    IsSpaced TokenLine.IsEmpty (settled.flatMap SettledLine.lines) := by
  refine spaced.flatMap (fun line => ?_) (fun line isBlank => ?_)
    fun line member isFilled printed inside => ?_
  · cases line <;> simp [SettledLine.lines]
  · cases line with
    | blank => exact ⟨_, rfl⟩
    | line => contradiction
  · cases line with
    | blank => exact absurd rfl isFilled
    | line depth commentDepth width before planned comment =>
        rcases List.mem_append.mp inside with isComment | isLine
        · exact filled_ofComment _ _ printed isComment
        · rw [List.mem_singleton.mp isLine]
          exact List.append_ne_nil_of_left_ne_nil (sound _ member).isFilled _

/-! ## The lines of a text -/

theorem TokenLine.lines_renderAll {indent : String} (isIndent : IsIndent indent)
    {newline : List Char} (isNewline : IsNewline newline)
    {lines : List TokenLine} (readable : ∀ line ∈ lines, line.IsReadable) :
    Text.lines (renderAll indent newline lines) =
      lines.map (render indent) := by
  have isBreak : Text.IsBreak newline := by
    rcases isNewline with rfl | rfl
    · exact Or.inr (Or.inr rfl)
    · exact Or.inl rfl
  have whole : newline ≠ ['\r'] := by
    rcases isNewline with rfl | rfl <;> decide
  refine Text.splitsInto_iff.mp ?_
  induction lines with
  | nil => exact .nothing
  | cons line others inductionHypothesis =>
      obtain ⟨here, behind⟩ := List.forall_mem_cons.mp readable
      rw [renderAll, List.flatMap_cons, List.map_cons]
      exact .line (here.oneLine_render isIndent) isBreak
        (fun isReturn => absurd isReturn whole) (inductionHypothesis behind)

/-- Only the lines without tokens are empty. -/
theorem TokenLine.IsReadable.render_eq_nil_iff {line : TokenLine}
    (readable : line.IsReadable) (indent : String) :
    line.render indent = [] ↔ line.IsEmpty := by
  obtain ⟨depth, width, tokens⟩ := line
  cases tokens with
  | nil => exact ⟨fun _ => rfl, fun _ => rfl⟩
  | cons first others =>
      obtain ⟨character, rest, text, _⟩ :=
        readable.isRecut first List.mem_cons_self
      simp [render, IsEmpty, text]

/-! ## The gap between statements -/

theorem TokenLine.finish_line_of_mem_placedFrom {indent : String}
    (isIndent : IsIndent indent) {number : Nat} {lines : List TokenLine}
    {token : Token} (member : token ∈ placedFrom indent number lines) :
    token.span.finish.line = token.span.start.line := by
  induction lines generalizing number with
  | nil => simp [placedFrom] at member
  | cons line others inductionHypothesis =>
      rcases List.mem_append.mp member with isHere | isLater
      · obtain ⟨start, finish⟩ := line_of_mem_placed isIndent isHere
        rw [start, finish]
      · exact inductionHypothesis isLater

/-- The tokens of a plan stand on the lines that are printed for it. -/
theorem line_of_mem_standing {indent : String} (isIndent : IsIndent indent)
    {number : Nat} {settled : List SettledLine} {token : Token}
    (member : token ∈
      (standing indent number settled).flatMap PlannedLine.contents) :
    number ≤ token.span.start.line ∧
      token.span.finish.line <
        number + (settled.flatMap SettledLine.lines).length := by
  rw [contents_standing] at member
  have placed := List.mem_of_mem_filter member
  rw [TokenLine.finish_line_of_mem_placedFrom isIndent placed]
  exact ⟨TokenLine.le_line_of_mem_placedFrom isIndent placed,
    TokenLine.line_lt_of_mem_placedFrom isIndent placed⟩

/-- The tokens of one planned line stand behind the comments before it. -/
theorem exists_of_standing_cons {indent : String} (isIndent : IsIndent indent)
    {number : Nat} {settled : List SettledLine}
    {depth commentDepth width : Nat} {planned : List Token}
    {others : List PlannedLine}
    (plan : standing indent number settled =
      .tokens depth commentDepth width planned :: others) :
    ∃ line rest last, ∃ comments : List String, settled = line :: rest ∧
      line.lines = comments.map (TokenLine.ofComment commentDepth) ++ [last] ∧
      standing indent (number + line.lines.length) rest = others ∧
      ∀ token ∈ planned, token.span.start.line = number + comments.length ∧
        token.span.finish.line = number + comments.length := by
  cases settled with
  | nil => simp [standing] at plan
  | cons line rest =>
      obtain ⟨here, behind⟩ := List.cons.inj plan
      cases line with
      | blank => contradiction
      | line _ _ _ comments contents comment =>
          rw [standing_line] at here
          injection here with _ sameDepth _ samePlanned
          subst sameDepth samePlanned
          refine ⟨_, rest, _, comments, rfl, rfl, behind, fun token member => ?_⟩
          exact TokenLine.line_of_mem_placed isIndent
            (List.mem_of_mem_filter member)

/-- The number of the one empty line between the tokens of two statements. -/
def IsGap (lines : List TokenLine) (first second : Statement)
    (number : Nat) : Prop :=
  (∃ line, lines[number]? = some line ∧ line.IsEmpty) ∧
    (∀ token ∈ first.tokens, token.span.finish.line < number) ∧
      ∀ token ∈ second.tokens, number < token.span.start.line

/-- The first line of a statement holds its keyword. -/
theorem exists_statementListLines_cons (statement : Statement)
    (others : List Statement) :
    ∃ planned rest, statementListLines (statement :: others) =
      .tokens 0 0 0 (statement.keyword :: planned) :: rest := by
  cases others <;> cases statement <;> exact ⟨_, _, rfl⟩

/-- The last line of a statement has tokens of it. -/
theorem exists_statementLines_concat (statement : Statement) :
    ∃ front commentDepth planned, ∃ last ∈ planned,
      last ∈ statement.tokens ∧ statementLines statement =
        front ++ [.tokens 0 commentDepth 0 planned] := by
  obtain ⟨front, lines⟩ := exists_statementLines_eq statement
  cases statement with
  | version version =>
      exact ⟨front, 0, version.tokens, version.keyword, List.mem_cons_self,
        List.mem_cons_self, lines⟩
  | block block =>
      refine ⟨front, 1, [block.closeBracket], block.closeBracket,
        List.mem_cons_self, ?_, lines⟩
      exact List.mem_append_right _ (List.mem_singleton_self _)

/-- The last token of a statement stands right above the line behind it. -/
theorem exists_last_line {indent : String} (isIndent : IsIndent indent)
    {number : Nat} {settled : List SettledLine} {statement : Statement}
    (plan : standing indent number settled = statementLines statement) :
    ∃ last ∈ statement.tokens, last.span.finish.line + 1 =
      number + (settled.flatMap SettledLine.lines).length := by
  obtain ⟨front, commentDepth, planned, last, inPlanned, inStatement, lines⟩ :=
    exists_statementLines_concat statement
  obtain ⟨before, after, rfl, -, isLast⟩ :=
    standing_eq_append (plan.trans lines)
  obtain ⟨line, rest, printed, comments, rfl, printedLines, nothing, place⟩ :=
    exists_of_standing_cons isIndent isLast
  obtain rfl : rest = [] := by
    cases rest with
    | nil => rfl
    | cons => simp [standing] at nothing
  refine ⟨last, inStatement, ?_⟩
  rw [(place last inPlanned).2, List.flatMap_append, List.length_append,
    List.flatMap_singleton, printedLines, List.length_append, List.length_map,
    List.length_singleton]
  omega

theorem length_append_blank (first second : List TokenLine) :
    (first ++ second ++ [TokenLine.blank]).length =
      first.length + second.length + 1 := by
  rw [List.length_append, List.length_append, List.length_singleton]

variable {indent : String} {front back : List TokenLine}

/-- Between two statements stand a blank line and comments. -/
theorem existsUnique_isGap (isIndent : IsIndent indent)
    {before after : List SettledLine} {first second : Statement}
    {others : List Statement}
    (plan : standing indent front.length before = statementLines first)
    (nextPlan : standing indent
      (front ++ before.flatMap SettledLine.lines ++ [TokenLine.blank]).length
        after = statementListLines (second :: others)) :
    ∃! number, IsGap (front ++ before.flatMap SettledLine.lines ++
      [TokenLine.blank] ++ after.flatMap SettledLine.lines ++ back) first second
        number := by
  obtain ⟨planned, rest, lines⟩ := exists_statementListLines_cons second others
  obtain ⟨last, inFirst, isLast⟩ := exists_last_line isIndent plan
  obtain ⟨line, more, printed, comments, rfl, printedLines, -, place⟩ :=
    exists_of_standing_cons isIndent (nextPlan.trans lines)
  have length_eq :=
    length_append_blank front (before.flatMap SettledLine.lines)
  refine ⟨front.length + (before.flatMap SettledLine.lines).length,
    ⟨⟨TokenLine.blank, ?_, rfl⟩, fun token member => ?_,
      fun token member => ?_⟩, ?_⟩
  · rw [List.append_assoc _ [TokenLine.blank], List.append_assoc _ _ back,
      List.getElem?_append_right (by simp)]
    simp
  · rw [← contents_statementLines, ← plan] at member
    exact (line_of_mem_standing isIndent member).2
  · have inPlan : token ∈ (statementListLines (second :: others)).flatMap
        PlannedLine.contents := by
      rw [contents_statementListLines]
      exact List.mem_flatMap.mpr ⟨second, List.mem_cons_self, member⟩
    rw [← nextPlan] at inPlan
    have below := (line_of_mem_standing isIndent inPlan).1
    omega
  · rintro number ⟨⟨empty, isEmpty, isBlank⟩, below, above⟩
    have afterLast := below last inFirst
    have beforeKeyword := above _ second.keyword_mem_tokens
    rw [(place _ List.mem_cons_self).1] at beforeKeyword
    by_contra other
    -- Any other line between the statements is one of the comments.
    rw [List.flatMap_cons, printedLines, List.append_assoc,
      List.append_assoc _ _ back, List.append_assoc _ [printed],
      List.getElem?_append_right (by omega), List.getElem?_append_left] at isEmpty
    · exact filled_ofComment _ comments empty (List.mem_of_getElem? isEmpty)
        isBlank
    · rw [List.length_map]
      omega

/-- There is one gap between any statement and the next. -/
theorem isChain_isGap (isIndent : IsIndent indent)
    {settled : List SettledLine} {statements : List Statement}
    (plan : standing indent front.length settled =
      statementListLines statements) :
    statements.IsChain fun first second => ∃! number,
      IsGap (front ++ settled.flatMap SettledLine.lines ++ back) first second
        number := by
  induction statements generalizing front settled with
  | nil => exact List.isChain_nil
  | cons first others inductionHypothesis =>
      cases others with
      | nil => exact List.isChain_singleton _
      | cons second others =>
          have lines : statementListLines (first :: second :: others) =
              statementLines first ++
                .blank :: statementListLines (second :: others) := rfl
          obtain ⟨before, after, rfl, isFirst, isBehind⟩ :=
            standing_eq_append (plan.trans lines)
          cases after with
          | nil => simp [standing] at isBehind
          | cons gap rest =>
              obtain ⟨isGap, isRest⟩ := List.cons.inj isBehind
              cases gap with
              | line => contradiction
              | blank =>
                  have whole : front ++ (before ++ SettledLine.blank ::
                      rest).flatMap SettledLine.lines ++ back =
                        front ++ before.flatMap SettledLine.lines ++
                          [TokenLine.blank] ++
                            rest.flatMap SettledLine.lines ++ back := by
                    simp [SettledLine.lines]
                  rw [whole]
                  have nextPlan := length_append_blank front
                    (before.flatMap SettledLine.lines) ▸ isRest
                  exact List.isChain_cons_cons.mpr
                    ⟨existsUnique_isGap isIndent isFirst nextPlan,
                      inductionHypothesis nextPlan⟩

end Layout

namespace Compilation

open Layout (IsSpaced PlannedLine SettledLine TokenLine)

variable {text : String}

/-- The lines of a layout have gaps of one line only. -/
theorem isSpaced_layoutLines (clean : (ofText text).hasSyntaxErrors = false) :
    IsSpaced TokenLine.IsEmpty (layoutLines text) := by
  have planned := Layout.isSpaced_statementListLines
    (ofText text).tree.statements
  rw [← treeLines_eq clean] at planned
  have settled : IsSpaced (fun line : SettledLine => line.shape = none)
      (settledLines text).1 :=
    @IsSpaced.congr _ _ _ (· = none) PlannedLine.shape SettledLine.shape _
      planned _ (Layout.map_shape_settle [] _ _).symm
  have lines := Layout.isSpaced_lines (isSound_settledLines clean) settled
  have comments (texts : List String) : IsSpaced TokenLine.IsEmpty
      (texts.map (TokenLine.ofComment 0)) :=
    .of_forall (Layout.filled_ofComment 0 texts)
  rw [layoutLines_eq, Layout.sheet]
  have woven := lines.append (comments (settledLines text).2)
  split
  · rw [List.append_nil]
    exact woven.append (comments _)
  · rename_i isOpen
    rw [List.append_assoc, List.singleton_append]
    simp only [Bool.or_eq_true, List.isEmpty_iff, not_or] at isOpen
    exact woven.append_gap isOpen.2 _ (by simpa using isOpen.1) (comments _)

end Compilation

end WorkflowLang
