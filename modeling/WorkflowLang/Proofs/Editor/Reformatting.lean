import WorkflowLang.Editor.Reformat
import WorkflowLang.Proofs.Editor.Edits
import WorkflowLang.Proofs.Text.Lines

/-!
# The edit that lays out a document

To an editor a text has one line more than it has line breaks.  The end of a text
is the number of its breaks and the width of what stands behind the last one
(`Text.BreaksInto.endPosition_eq`), and every character of the text comes before it.
So the one edit of a document that is not in canonical layout leaves nothing of the
old text (`Compilation.reformats`).
-/

namespace WorkflowLang

namespace Text

/-- A text has these lines, each without a break in it and with one behind it, and
this one behind its last break. -/
inductive BreaksInto : List Char → List (List Char) → List Char → Prop
  | last {line : List Char} :
      (∀ character ∈ line, isLineBreak character = false) →
        BreaksInto line [] line
  | line {line ending rest last : List Char} {others : List (List Char)} :
      (∀ character ∈ line, isLineBreak character = false) →
      IsBreak ending →
      (ending = ['\r'] → rest.head? ≠ some '\n') →
      BreaksInto rest others last →
        BreaksInto (line ++ ending ++ rest) (line :: others) last

theorem exists_breaksInto (text : List Char) :
    ∃ above last, BreaksInto text above last := by
  have splits := splitsInto_lines text
  generalize lines text = found at splits
  induction splits with
  | nothing => exact ⟨[], [], .last (by simp)⟩
  | @last line _ oneLine => exact ⟨[], line, .last oneLine⟩
  | @line line _ _ _ oneLine isBreak whole _ inductionHypothesis =>
      obtain ⟨above, last, breaks⟩ := inductionHypothesis
      exact ⟨line :: above, last, .line oneLine isBreak whole breaks⟩

theorem IsBreak.advance {ending : List Char} (isBreak : IsBreak ending)
    (position : Position) : position.advance ending = position.nextLine := by
  rcases isBreak with rfl | rfl | rfl <;> rfl

/-- A line and its break lead to the beginning of the next line. -/
theorem advance_line {line ending rest : List Char}
    (oneLine : ∀ character ∈ line, isLineBreak character = false)
    (isBreak : IsBreak ending)
    (whole : ending = ['\r'] → rest.head? ≠ some '\n')
    (position : Position) :
    position.advance (line ++ ending ++ rest) =
      position.nextLine.advance rest := by
  have behindLine : line.getLast? = some '\r' →
      (ending ++ rest).head? ≠ some '\n' := by
    intro ends
    exact absurd (oneLine '\r' (List.mem_of_getLast? ends)) (by decide)
  have behindBreak : ending.getLast? = some '\r' →
      rest.head? ≠ some '\n' := by
    intro ends
    rcases isBreak with rfl | rfl | rfl
    · exact absurd ends (by decide)
    · exact whole rfl
    · exact absurd ends (by decide)
  rw [List.append_assoc, Position.advance_append behindLine,
    Position.advance_append behindBreak, Position.advance_eq_right oneLine,
    isBreak.advance]
  rfl

theorem BreaksInto.advance_eq {text last : List Char}
    {above : List (List Char)} (breaks : BreaksInto text above last)
    (line : Nat) :
    Position.advance ⟨line, 0⟩ text =
      ⟨line + above.length, units last⟩ := by
  induction breaks generalizing line with
  | last oneLine =>
      rw [Position.advance_eq_right oneLine]
      simp [Position.right]
  | line oneLine isBreak whole _ inductionHypothesis =>
      rw [advance_line oneLine isBreak whole, Position.nextLine,
        inductionHypothesis, List.length_cons, Nat.succ_add_eq_add_succ]

/-- The end of a text in lines and columns. -/
theorem BreaksInto.endPosition_eq {text last : List Char}
    {above : List (List Char)} (breaks : BreaksInto text above last) :
    endPosition text = ⟨above.length, units last⟩ := by
  rw [endPosition, Position.origin, breaks.advance_eq, Nat.zero_add]

theorem offset_origin (text : List Char) : offset text Position.origin = 0 :=
  offsetFrom_self Position.origin text

/-- The whole text comes before its end. -/
theorem offset_endPosition_self (text : List Char) :
    offset text (endPosition text) = text.length := by
  have atEnd := offset_endPosition fun (_ : text.getLast? = some '\r') =>
    show ([] : List Char).head? ≠ some '\n' from nofun
  rwa [List.append_nil] at atEnd

end Text

/-- An edit from the beginning to the end of a text leaves nothing of it. -/
theorem TextEdit.applyAll_whole (text newText : String) :
    applyAll [⟨⟨Position.origin, Text.endPosition text.toList⟩, newText⟩]
      text = some newText := by
  have whole : [] ++ text.toList ++ [] = text.toList := List.append_nil _
  rw [applyAll, List.mergeSort_singleton,
    applyFrom_cons whole ?start ?finish (Nat.le_refl 0), applyFrom]
  case start => exact Text.offset_origin _
  case finish => exact Text.offset_endPosition_self _
  simp

namespace Compilation

/-- There is no edit for a document with syntax errors or in canonical layout.  For
any other there is one: from the beginning of the text to its end, which is the
number of its line breaks and the width of its last line, and what it makes of the
text is the layout. -/
structure Reformats (compilation : Compilation) (options : IndentOptions) :
    Prop where
  none_iff : compilation.formattingEdits? options = none ↔
    compilation.hasSyntaxErrors = true ∨
      compilation.format? options.indent = some compilation.text
  replaces : compilation.hasSyntaxErrors = false →
    compilation.format? options.indent ≠ some compilation.text →
      ∃ formatted edit above last,
        compilation.format? options.indent = some formatted ∧
          compilation.formattingEdits? options = some [edit] ∧
          Text.BreaksInto compilation.text.toList above last ∧
          edit.span = ⟨⟨0, 0⟩, ⟨above.length, Text.units last⟩⟩ ∧
          TextEdit.applyAll [edit] compilation.text = some formatted

variable {compilation : Compilation} {options : IndentOptions}

theorem formattingEdits?_of_hasSyntaxErrors
    (broken : compilation.hasSyntaxErrors = true) :
    compilation.formattingEdits? options = none := by
  simp [formattingEdits?, format?, broken]

theorem formattingEdits?_of_format? {formatted : String}
    (formats : compilation.format? options.indent = some formatted) :
    compilation.formattingEdits? options =
      if formatted = compilation.text then none
      else
        some [⟨⟨Position.origin, Text.endPosition compilation.text.toList⟩,
          formatted⟩] := by
  rw [formattingEdits?, formats]

theorem exists_format? (clean : compilation.hasSyntaxErrors = false)
    (indent : String) :
    ∃ formatted, compilation.format? indent = some formatted := by
  rw [format?, clean]
  exact ⟨_, rfl⟩

/-- Formatting a document in an editor does what the layout says. -/
theorem reformats (text : String) (options : IndentOptions) :
    (ofText text).Reformats options := by
  constructor
  · cases broken : (ofText text).hasSyntaxErrors with
    | true => simp [formattingEdits?_of_hasSyntaxErrors broken]
    | false =>
        obtain ⟨formatted, formats⟩ := exists_format? broken options.indent
        rw [formattingEdits?_of_format? formats, formats]
        simp
  · intro clean otherLayout
    obtain ⟨formatted, formats⟩ := exists_format? clean options.indent
    obtain ⟨above, last, breaks⟩ :=
      Text.exists_breaksInto (ofText text).text.toList
    rw [formats, ne_eq, Option.some.injEq] at otherLayout
    refine ⟨formatted, _, above, last, formats, ?_, breaks, ?_,
      TextEdit.applyAll_whole _ formatted⟩
    · rw [formattingEdits?_of_format? formats, if_neg otherLayout]
    · rw [breaks.endPosition_eq]
      rfl

-- A lone carriage return, a pair and a character of two units.
example : (ofText "version\r=\r\n0 # 😀").formattingEdits? ⟨2, true⟩ =
    some [⟨⟨⟨0, 0⟩, ⟨2, 6⟩⟩, "version = 0 # 😀\r\n"⟩] := by
  decide +kernel

end Compilation

end WorkflowLang
