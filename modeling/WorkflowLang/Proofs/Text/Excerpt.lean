import WorkflowLang.Text.Excerpt
import WorkflowLang.Proofs.Text.Lines

/-!
# What an excerpt shows

The excerpt for a stretch of a line shows that line, some lines above and below
it as far as there are any, and under the line one row with a caret under each
character of the stretch (`Excerpt.around_eq`).  As a text it has each of these
lines behind its number and a bar (`Excerpt.textAround_eq`).  The numbers end in one
column, and the carets stand under the stretch (`Text.Stretch.isAligned`).
-/

namespace WorkflowLang

/-- Counting columns up to the one behind some characters counts these. -/
theorem Text.characterOffset_units (before rest : List Char) :
    characterOffset (before ++ rest) (units before) = before.length := by
  induction before with
  | nil => cases rest <;> rfl
  | cons character others inductionHypothesis =>
      have wide := unitWidth_pos character
      rw [List.cons_append, characterOffset, units_cons, if_neg (by omega),
        Nat.add_sub_cancel_left, inductionHypothesis, List.length_cons]

namespace Excerpt

/-- The rows of consecutive lines, the first of which has a zero-based number. -/
def numbered (first : Nat) : List (List Char) → List ExcerptRow
  | [] => []
  | line :: others => .source (first + 1) line :: numbered (first + 1) others

/-- Lines on which a span does not start have one row each. -/
theorem flatMap_lineRows_eq {span : Span} {first : Nat}
    {lines : List (List Char)}
    (elsewhere : span.start.line < first ∨
      first + lines.length ≤ span.start.line) :
    (lines.zipIdx first).flatMap (fun entry => lineRows span entry.1 entry.2) =
      numbered first lines := by
  induction lines generalizing first with
  | nil => rfl
  | cons line others inductionHypothesis =>
      rw [List.length_cons] at elsewhere
      rw [List.zipIdx_cons, List.flatMap_cons,
        inductionHypothesis (by omega), lineRows, if_neg (by omega)]
      rfl

theorem take_zipIdx {Item : Type} (items : List Item) (first count : Nat) :
    (items.zipIdx first).take count = (items.take count).zipIdx first := by
  induction items generalizing first count with
  | nil => simp
  | cons item others inductionHypothesis =>
      cases count <;> simp [inductionHypothesis]

theorem drop_zipIdx {Item : Type} (items : List Item) (first count : Nat) :
    (items.zipIdx first).drop count =
      (items.drop count).zipIdx (first + count) := by
  induction items generalizing first count with
  | nil => simp
  | cons item others inductionHypothesis =>
      cases count with
      | zero => rfl
      | succ count =>
          simp [inductionHypothesis, Nat.add_assoc, Nat.add_comm 1]

end Excerpt

namespace Text.Stretch

variable {text : List Char} {span : Span}

def line (stretch : Stretch text span) : List Char :=
  stretch.before ++ stretch.marked ++ stretch.after

/-- The one-based number of the last line, or of the one that is some lines below
the stretch. -/
def lastNumber (stretch : Stretch text span) (context : Nat) : Nat :=
  min (stretch.above.length + context)
    (stretch.above.length + stretch.below.length) + 1

/-- The line of a stretch with at most some lines above and below it, and one
caret under each character of the stretch. -/
def excerpt (stretch : Stretch text span) (context : Nat) : Excerpt :=
  let first := stretch.above.length - context
  { gutterWidth := max (toString (stretch.lastNumber context)).length 3
    rows :=
      Excerpt.numbered first (stretch.above.drop first) ++
        .source (stretch.above.length + 1) stretch.line ::
          .carets stretch.before.length stretch.marked.length ::
            Excerpt.numbered (stretch.above.length + 1)
              (stretch.below.take context) }

theorem caretRow_eq (stretch : Stretch text span) :
    Excerpt.caretRow stretch.line span =
      .carets stretch.before.length stretch.marked.length := by
  have nonempty := List.length_pos_iff.mpr stretch.marked_ne_nil
  have start := characterOffset_units stretch.before
    (stretch.marked ++ stretch.after)
  have finish := characterOffset_units (stretch.before ++ stretch.marked)
    stretch.after
  rw [← List.append_assoc] at start
  rw [Excerpt.caretRow, line, stretch.start_eq, stretch.finish_eq,
    if_pos rfl, start, finish, List.length_append]
  congr 1
  omega

end Text.Stretch

namespace Excerpt

open Text (Stretch)

variable {text : List Char} {span : Span}

theorem drop_take_lines (above below : List (List Char)) (line : List Char)
    (context : Nat) :
    ((above ++ line :: below).take
        (min (above.length + context) (above.length + below.length) + 1)).drop
          (above.length - context) =
      above.drop (above.length - context) ++ line :: below.take context := by
  have count : min (above.length + context) (above.length + below.length) + 1 -
      above.length = min context below.length + 1 := by
    omega
  have fewer : below.take (min context below.length) = below.take context :=
    List.take_eq_take_iff.mpr (by omega)
  rw [List.take_append, List.take_of_length_le (by omega), count,
    List.take_succ_cons, fewer, List.drop_append_of_le_length (by omega)]

theorem flatMap_shown_eq (stretch : Stretch text span) (context : Nat) :
    (((stretch.above ++ stretch.line :: stretch.below).zipIdx.take
        (stretch.lastNumber context)).drop
          (stretch.above.length - context)).flatMap
            (fun entry => lineRows span entry.1 entry.2) =
      (stretch.excerpt context).rows := by
  have start : span.start.line = stretch.above.length := by
    rw [stretch.start_eq]
  have behind : stretch.above.length - context +
      (stretch.above.drop (stretch.above.length - context)).length =
        stretch.above.length := by
    rw [List.length_drop]
    omega
  rw [take_zipIdx, drop_zipIdx, Stretch.lastNumber, drop_take_lines,
    Nat.zero_add, List.zipIdx_append, behind, List.zipIdx_cons,
    List.flatMap_append, List.flatMap_cons, flatMap_lineRows_eq (by omega),
    flatMap_lineRows_eq (by omega), lineRows, if_pos start.symm,
    stretch.caretRow_eq]
  rfl

theorem wordSum_of_lt {first second : Nat}
    (fits : first + second < UInt64.size) :
    wordSum first second = .ok (first + second) :=
  if_pos fits

theorem around_eq (stretch : Stretch text span) {context : Nat}
    (fits : span.start.line + context < UInt64.size) :
    around text span context = .ok (stretch.excerpt context) := by
  have lines : Text.lines text =
      stretch.above ++ stretch.line :: stretch.below :=
    Text.splitsInto_iff.mp stretch.splits
  have start : span.start.line = stretch.above.length := by
    rw [stretch.start_eq]
  have length : (stretch.above ++ stretch.line :: stretch.below).length =
      stretch.above.length + stretch.below.length + 1 := by
    rw [List.length_append, List.length_cons, Nat.add_assoc]
  simp only [around, wordSum_of_lt fits, Except.map]
  rw [start, lines, length, if_pos (by omega), Nat.add_sub_cancel]
  refine congrArg Except.ok ?_
  rw [ofLines, ← Stretch.lastNumber, flatMap_shown_eq]
  rfl

/-- The text of an excerpt has a line feed behind each row. -/
theorem toList_render (excerpt : Excerpt) :
    excerpt.render.toList =
      (excerpt.rows.map fun row =>
        (row.render excerpt.gutterWidth).toList).flatMap
          fun line => line ++ ['\n'] := by
  simp [render, String.toList_join, List.flatMap_map]

end Excerpt

namespace Text

/-- A line behind its number, which ends in the last column of a gutter. -/
def numberedLine (width number : Nat) (line : List Char) : List Char :=
  (Nat.toDigits 10 number).leftpad width ' ' ++ [' ', '|', ' '] ++ line

/-- Carets behind a blank gutter, and behind a blank for each character before
those that they stand under. -/
def caretLine (width before marked : Nat) : List Char :=
  List.replicate width ' ' ++ [' ', '|', ' '] ++
    List.replicate before ' ' ++ List.replicate marked '^'

/-- Consecutive lines behind their numbers, the first of which has a zero-based
number. -/
def numberedLines (width first : Nat) (lines : List (List Char)) :
    List (List Char) :=
  (lines.zipIdx first).map fun entry =>
    numberedLine width (entry.2 + 1) entry.1

theorem toList_digits (number : Nat) :
    (toString number).toList = Nat.toDigits 10 number := by
  rw [Nat.toString_eq_ofList_toDigits, String.toList_ofList]

/-- A number takes no fewer digits than a smaller one. -/
theorem length_digits_le {first second : Nat} (le : first ≤ second) :
    (Nat.toDigits 10 first).length ≤ (Nat.toDigits 10 second).length := by
  rw [Nat.length_toDigits_le_iff (by decide) Nat.length_toDigits_pos]
  refine Nat.lt_of_le_of_lt le ?_
  exact (Nat.length_toDigits_le_iff (by decide)
    Nat.length_toDigits_pos).mp (Nat.le_refl _)

theorem render_source (width number : Nat) (line : List Char) :
    ((ExcerptRow.source number line).render width).toList =
      numberedLine width number line := by
  have bar : " | ".toList = [' ', '|', ' '] := rfl
  simp only [ExcerptRow.render, ExcerptRow.gutter, ExcerptRow.content,
    String.toList_append, String.toList_ofList, bar, toList_digits,
    ← String.length_toList, numberedLine, List.leftpad]

theorem render_carets (width before marked : Nat) :
    ((ExcerptRow.carets before marked).render width).toList =
      caretLine width before marked := by
  have bar : " | ".toList = [' ', '|', ' '] := rfl
  simp only [ExcerptRow.render, ExcerptRow.gutter, ExcerptRow.content,
    String.toList_append, String.toList_ofList, bar, caretLine,
    List.append_assoc]

theorem render_numbered (width first : Nat) (lines : List (List Char)) :
    (Excerpt.numbered first lines).map
        (fun row => (row.render width).toList) =
      numberedLines width first lines := by
  induction lines generalizing first with
  | nil => rfl
  | cons line others inductionHypothesis =>
      rw [Excerpt.numbered, List.map_cons, render_source, inductionHypothesis]
      rfl

namespace Stretch

variable {text : List Char} {span : Span}

/-- The columns of the widest number, and three at least. -/
def gutterWidth (stretch : Stretch text span) (context : Nat) : Nat :=
  max (Nat.toDigits 10 (stretch.lastNumber context)).length 3

/-- The line of a stretch and at most some lines above and below it behind their
numbers, and carets under the stretch. -/
def shownLines (stretch : Stretch text span) (context : Nat) :
    List (List Char) :=
  let first := stretch.above.length - context
  let width := stretch.gutterWidth context
  numberedLines width first (stretch.above.drop first) ++
    numberedLine width (stretch.above.length + 1) stretch.line ::
      caretLine width stretch.before.length stretch.marked.length ::
        numberedLines width (stretch.above.length + 1)
          (stretch.below.take context)

def shown (stretch : Stretch text span) (context : Nat) : String :=
  String.ofList
    ((stretch.shownLines context).flatMap fun line => line ++ ['\n'])

theorem render_excerpt (stretch : Stretch text span) (context : Nat) :
    (stretch.excerpt context).render = stretch.shown context := by
  have width : (stretch.excerpt context).gutterWidth =
      stretch.gutterWidth context := by
    rw [excerpt, gutterWidth, ← toList_digits, String.length_toList]
  have lines : (stretch.excerpt context).rows.map
      (fun row => (row.render (stretch.gutterWidth context)).toList) =
        stretch.shownLines context := by
    simp only [excerpt, shownLines, List.map_append, List.map_cons,
      render_numbered, render_source, render_carets]
  rw [shown, ← lines, ← width, ← Excerpt.toList_render,
    String.ofList_toList]

/-- All numbers of an excerpt end in one column. -/
theorem length_number (stretch : Stretch text span) {context number : Nat}
    (le : number ≤ stretch.lastNumber context) :
    ((Nat.toDigits 10 number).leftpad (stretch.gutterWidth context)
      ' ').length = stretch.gutterWidth context := by
  have digits := length_digits_le le
  rw [List.length_leftpad, gutterWidth]
  omega

/-- Numbers end in one column, and the carets stand under the characters of the
stretch, one under each of them. -/
structure IsAligned (stretch : Stretch text span) (context : Nat) : Prop where
  numbers : ∀ number ≤ stretch.lastNumber context,
    ((Nat.toDigits 10 number).leftpad (stretch.gutterWidth context)
      ' ').length = stretch.gutterWidth context
  carets : ∃ left under,
    numberedLine (stretch.gutterWidth context) (stretch.above.length + 1)
        stretch.line = left ++ stretch.marked ++ stretch.after ∧
      caretLine (stretch.gutterWidth context) stretch.before.length
          stretch.marked.length =
        under ++ List.replicate stretch.marked.length '^' ∧
      under.length = left.length ∧ '^' ∉ under

theorem isAligned (stretch : Stretch text span) (context : Nat) :
    stretch.IsAligned context where
  numbers _ le := stretch.length_number le
  carets := by
    have last : stretch.above.length + 1 ≤ stretch.lastNumber context := by
      rw [lastNumber]
      omega
    have number := stretch.length_number last
    refine ⟨(Nat.toDigits 10 (stretch.above.length + 1)).leftpad
        (stretch.gutterWidth context) ' ' ++ [' ', '|', ' '] ++ stretch.before,
      List.replicate (stretch.gutterWidth context) ' ' ++ [' ', '|', ' '] ++
        List.replicate stretch.before.length ' ', ?_, rfl, ?_, ?_⟩
    · simp only [numberedLine, line, List.append_assoc]
    · simp only [List.length_append, List.length_replicate, number]
    · simp

end Stretch

end Text

/-- The text of an excerpt: the lines around a stretch, and the carets under it. -/
theorem Excerpt.textAround_eq {text : List Char} {span : Span}
    (stretch : Text.Stretch text span) {context : Nat}
    (fits : span.start.line + context < UInt64.size) :
    textAround text span context = .ok (stretch.shown context) := by
  rw [textAround, around_eq stretch fits, ← stretch.render_excerpt]
  rfl

end WorkflowLang
