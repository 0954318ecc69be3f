import WorkflowLang.Proofs.Text.Excerpt

/-!
# Context around a line

An excerpt with more context should show what one with less context shows, and every
excerpt should show the line that it is about.  The last line to show is found by a
sum of words, and as long as this sum is a word both is true.  A sum beyond that
stops the program, and there is no excerpt at all.  So context widens excerpts
exactly as far as the sum goes (`Excerpt.widens_iff`).
-/

namespace WorkflowLang
namespace Excerpt

/-- The items of a list from one place up to another one. -/
def window {Item : Type} (items : List Item) (first last : Nat) : List Item :=
  (items.take (last + 1)).drop first

theorem window_infix {Item : Type} (items : List Item)
    {first last outerFirst outerLast : Nat} (firstLe : outerFirst ≤ first)
    (lastLe : last ≤ outerLast) :
    window items first last <:+: window items outerFirst outerLast := by
  have fewer : items.take (last + 1) =
      (items.take (outerLast + 1)).take (last + 1) := by
    rw [List.take_take, Nat.min_eq_left (by omega)]
  have later : (items.take (outerLast + 1)).drop first =
      (window items outerFirst outerLast).drop (first - outerFirst) := by
    rw [window, List.drop_drop, Nat.add_sub_cancel' firstLe]
  rw [window, fewer, List.drop_take, later]
  exact (List.take_prefix _ _).isInfix.trans (List.drop_suffix _ _).isInfix

theorem window_self {Item : Type} {items : List Item} {place : Nat} {item : Item}
    (found : items[place]? = some item) : window items place place = [item] := by
  obtain ⟨inside, rfl⟩ := List.getElem?_eq_some_iff.mp found
  rw [window, List.drop_take, List.drop_eq_getElem_cons inside,
    Nat.add_sub_cancel_left, List.take_succ_cons, List.take_zero]

variable {source : List Char} {span : Span}

/-- The rows around the start of a span, whatever numbers are words. -/
def withContext (lines : List (List Char)) (span : Span) (context : Nat) :
    Excerpt :=
  ofLines lines span (span.start.line - context)
    (min (span.start.line + context) (lines.length - 1))

theorem rows_withContext (lines : List (List Char)) (context : Nat) :
    (withContext lines span context).rows =
      (window lines.zipIdx (span.start.line - context)
        (span.start.line + context)).flatMap
          fun entry => lineRows span entry.1 entry.2 := by
  have sameTake : lines.zipIdx.take
      (min (span.start.line + context) (lines.length - 1) + 1) =
        lines.zipIdx.take (span.start.line + context + 1) := by
    rw [List.take_eq_take_iff, List.length_zipIdx]
    omega
  rw [withContext, ofLines, sameTake, window]

theorem around_of_lt {context : Nat}
    (reaches : span.start.line < (Text.lines source).length)
    (fits : span.start.line + context < UInt64.size) :
    around source span context =
      .ok (withContext (Text.lines source) span context) := by
  simp only [around, reaches, if_true, wordSum_of_lt fits, Except.map,
    withContext]

/-- An excerpt is missing exactly where its text reaches the line that it is about
and the sum that finds its last line is no word. -/
theorem around_eq_error_iff {context : Nat} {abort : Abort} :
    around source span context = .error abort ↔
      span.start.line < (Text.lines source).length ∧
        UInt64.size ≤ span.start.line + context := by
  by_cases reaches : span.start.line < (Text.lines source).length
  · by_cases fits : span.start.line + context < UInt64.size
    · simp [around_of_lt reaches fits, fits]
    · cases abort
      simp [around, reaches, wordSum, fits, Except.map, Nat.le_of_not_lt fits]
  · simp [around, reaches]

theorem exists_around {context : Nat}
    (fits : span.start.line + context < UInt64.size) :
    ∃ shown, around source span context = .ok shown := by
  cases found : around source span context with
  | error abort =>
      have overflows := (around_eq_error_iff.mp found).2
      omega
  | ok shown => exact ⟨shown, rfl⟩

theorem textAround_of_around {context : Nat} {shown : Excerpt}
    (found : around source span context = .ok shown) :
    textAround source span context = .ok shown.render := by
  rw [textAround, found]
  rfl

theorem eq_of_around {context : Nat} {shown : Excerpt}
    (found : around source span context = .ok shown) :
    shown.rows = [] ∨ shown = withContext (Text.lines source) span context := by
  by_cases reaches : span.start.line < (Text.lines source).length
  · have fits : span.start.line + context < UInt64.size := by
      by_contra overflows
      have missing : around source span context = .error .overflow :=
        around_eq_error_iff.mpr ⟨reaches, Nat.le_of_not_lt overflows⟩
      rw [found] at missing
      contradiction
    rw [around_of_lt reaches fits] at found
    exact Or.inr (Except.ok.inj found).symm
  · rw [around, if_neg reaches] at found
    rw [← Except.ok.inj found]
    exact Or.inl rfl

theorem eq_of_mem_lineRows {line text : List Char} {index number : Nat}
    (member : .source number text ∈ lineRows span line index) :
    number = index + 1 ∧ text = line := by
  simp only [lineRows] at member
  split at member
  · simpa only [caretRow, List.mem_cons, ExcerptRow.source.injEq, reduceCtorEq,
      List.not_mem_nil, or_false] using member
  · simpa only [List.mem_singleton, ExcerptRow.source.injEq] using member

/-- A row with a number shows the line of this number, which is no line behind the
one that the sum finds. -/
theorem exists_index_of_mem {context number : Nat} {text : List Char}
    {shown : Excerpt} (found : around source span context = .ok shown)
    (member : .source number text ∈ shown.rows) :
    ∃ index, number = index + 1 ∧ index ≤ span.start.line + context ∧
      (Text.lines source)[index]? = some text := by
  rcases eq_of_around found with rows | rfl
  · rw [rows] at member
    contradiction
  · rw [rows_withContext, window, take_zipIdx] at member
    obtain ⟨⟨line, index⟩, isShown, isRow⟩ := List.mem_flatMap.mp member
    obtain ⟨rfl, rfl⟩ := eq_of_mem_lineRows isRow
    have isPlace := List.mem_zipIdx_iff_getElem?.mp
      (List.mem_of_mem_drop isShown)
    rw [List.getElem?_take, Option.ite_none_right_eq_some] at isPlace
    exact ⟨index, rfl, Nat.le_of_lt_succ isPlace.1, isPlace.2⟩

/-- Without context an excerpt shows the line that it is about, with its carets. -/
theorem rows_withContext_zero {lines : List (List Char)} {line : List Char}
    (found : lines[span.start.line]? = some line) :
    (withContext lines span 0).rows =
      [.source (span.start.line + 1) line, caretRow line span] := by
  have entry : lines.zipIdx[span.start.line]? =
      some (line, span.start.line) := by
    simp [List.getElem?_zipIdx, found]
  rw [rows_withContext, Nat.sub_zero, Nat.add_zero, window_self entry,
    List.flatMap_singleton, lineRows, if_pos rfl]

theorem rows_withContext_infix {lines : List (List Char)} {narrow wide : Nat}
    (le : narrow ≤ wide) :
    (withContext lines span narrow).rows <:+:
      (withContext lines span wide).rows := by
  obtain ⟨above, below, whole⟩ := window_infix lines.zipIdx
    (show span.start.line - wide ≤ span.start.line - narrow by omega)
    (show span.start.line + narrow ≤ span.start.line + wide by omega)
  rw [rows_withContext, rows_withContext, ← whole, List.flatMap_append,
    List.flatMap_append]
  exact List.infix_append _ _ _

/-- An excerpt is a part of one that shows more, and it shows the line that it is
about, with the carets under that line. -/
structure Extends (source : List Char) (span : Span) (fewer more : Excerpt) :
    Prop where
  rows_infix : fewer.rows <:+: more.rows
  start_line : ∃ line, (Text.lines source)[span.start.line]? = some line ∧
    [.source (span.start.line + 1) line, caretRow line span] <:+: fewer.rows

/-- What more context is for: there are excerpts with less and with more of it, and
the rows in the text of the one are among those in the text of the other. -/
def Widens (source : List Char) (span : Span) (narrow wide : Nat) : Prop :=
  ∃ fewer more,
    around source span narrow = .ok fewer ∧
      textAround source span narrow = .ok fewer.render ∧
      around source span wide = .ok more ∧
      textAround source span wide = .ok more.render ∧
      Extends source span fewer more

theorem widens_of_lt {narrow wide : Nat}
    (reaches : span.start.line < (Text.lines source).length)
    (le : narrow ≤ wide) (fits : span.start.line + wide < UInt64.size) :
    Widens source span narrow wide := by
  have fewer : around source span narrow = _ :=
    around_of_lt reaches (by omega)
  have more : around source span wide = _ := around_of_lt reaches fits
  have found := List.getElem?_eq_getElem reaches
  refine ⟨_, _, fewer, textAround_of_around fewer, more,
    textAround_of_around more, rows_withContext_infix le, _, found, ?_⟩
  rw [← rows_withContext_zero found]
  exact rows_withContext_infix (Nat.zero_le narrow)

/-- Where the sum is no word, there is no excerpt to be wider. -/
theorem not_widens_of_le {narrow wide : Nat}
    (reaches : span.start.line < (Text.lines source).length)
    (overflows : UInt64.size ≤ span.start.line + wide) :
    ¬Widens source span narrow wide := by
  rintro ⟨fewer, more, -, -, found, -⟩
  have missing : around source span wide = .error .overflow :=
    around_eq_error_iff.mpr ⟨reaches, overflows⟩
  rw [found] at missing
  contradiction

/-- More context shows more, exactly as long as the sum that finds the last line is a
word. -/
theorem widens_iff {narrow wide : Nat}
    (reaches : span.start.line < (Text.lines source).length)
    (le : narrow ≤ wide) :
    Widens source span narrow wide ↔
      span.start.line + wide < UInt64.size := by
  refine ⟨fun widens => ?_, widens_of_lt reaches le⟩
  by_contra overflows
  exact not_widens_of_le reaches (Nat.le_of_not_lt overflows) widens

/-- The second line has its whole text as context up to the largest word but one. -/
theorem widens_iff_secondLine :
    1 < (Text.lines "a\nb\rc".toList).length ∧ 0 ≤ UInt64.size - 2 ∧
      (Widens "a\nb\rc".toList ⟨⟨1, 0⟩, ⟨1, 1⟩⟩ 0 (UInt64.size - 2) ↔
        1 + (UInt64.size - 2) < UInt64.size) := by
  have reaches : 1 < (Text.lines "a\nb\rc".toList).length := by
    decide +kernel
  exact ⟨reaches, Nat.zero_le _, widens_iff reaches (Nat.zero_le _)⟩

/-- With the largest word as context there is no excerpt for the second line. -/
theorem not_widens_secondLine :
    1 < (Text.lines "a\nb".toList).length ∧ 0 ≤ UInt64.size - 1 ∧
      UInt64.size - 1 < UInt64.size ∧
      textAround "a\nb".toList ⟨⟨1, 0⟩, ⟨1, 1⟩⟩ (UInt64.size - 1) =
        .error .overflow ∧
      ¬Widens "a\nb".toList ⟨⟨1, 0⟩, ⟨1, 1⟩⟩ 0 (UInt64.size - 1) := by
  have reaches : 1 < (Text.lines "a\nb".toList).length := by
    decide +kernel
  refine ⟨reaches, Nat.zero_le _, by decide, ?_,
    not_widens_of_le reaches (by decide)⟩
  rw [textAround, around_eq_error_iff.mpr ⟨reaches, by decide⟩]
  rfl

end Excerpt
end WorkflowLang
