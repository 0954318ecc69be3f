import WorkflowLang.Proofs.Report.ExcerptRows

/-!
# Colors add only styles

A report without colors should be its header, its place and its excerpt, and one
with colors should be the same text to a reader who skips style sequences.
`Style.strip` skips them.  A styled text shows a plain one if stripping it in front
of any other text leaves the plain one there; this passes from the pieces of a
report to the whole (`Report.Content.addsOnlyStyles`).
-/

namespace WorkflowLang

namespace Style

/-- The characters between the bracket and the end of a style sequence. -/
def isAttribute (character : Char) : Bool :=
  character.isDigit || character == ';'

/-- What stands behind the last character of a style sequence. -/
def afterEnd? : List Char → Option (List Char)
  | 'm' :: behind => some behind
  | _ => none

/-- What stands behind the style sequence that a text begins with. -/
def afterSequence? : List Char → Option (List Char)
  | '\x1b' :: '[' :: rest => afterEnd? (rest.dropWhile isAttribute)
  | _ => none

theorem length_lt_of_afterEnd? {text behind : List Char}
    (found : afterEnd? text = some behind) : behind.length < text.length := by
  unfold afterEnd? at found
  split at found
  · rw [Option.some.inj found]
    exact Nat.lt_succ_self _
  · contradiction

theorem length_lt_of_afterSequence? {text behind : List Char}
    (found : afterSequence? text = some behind) :
    behind.length < text.length := by
  unfold afterSequence? at found
  split at found
  · next rest =>
      have shorter := length_lt_of_afterEnd? found
      have fewer := (List.dropWhile_suffix isAttribute (l := rest)).length_le
      simp only [List.length_cons]
      omega
  · contradiction

/-- A text without its style sequences. -/
def strip : List Char → List Char
  | [] => []
  | character :: rest =>
      match _ : afterSequence? (character :: rest) with
      | some behind => strip behind
      | none => character :: strip rest
termination_by text => text.length
decreasing_by
  · exact length_lt_of_afterSequence? ‹_›
  · exact Nat.lt_succ_self rest.length

theorem strip_nil : strip [] = [] := by
  rw [strip]

theorem strip_of_afterSequence? {text behind : List Char}
    (found : afterSequence? text = some behind) :
    strip text = strip behind := by
  cases text with
  | nil => contradiction
  | cons character rest =>
      rw [strip]
      split
      · next other isSequence =>
          rw [found] at isSequence
          rw [Option.some.inj isSequence]
      · next noSequence =>
          rw [found] at noSequence
          contradiction

theorem strip_sequence {attributes : List Char}
    (areAttributes : ∀ character ∈ attributes, isAttribute character = true)
    (rest : List Char) :
    strip ([escape, '['] ++ attributes ++ ['m'] ++ rest) = strip rest := by
  apply strip_of_afterSequence?
  calc
    afterSequence? ([escape, '['] ++ attributes ++ ['m'] ++ rest) =
        afterEnd? ((attributes ++ ['m'] ++ rest).dropWhile isAttribute) := rfl
    _ = afterEnd? ('m' :: rest) := by
      rw [List.append_assoc, List.dropWhile_append_of_pos areAttributes]
      rfl
    _ = some rest := rfl

theorem strip_opening (style : Style) (rest : List Char) :
    strip (style.opening ++ rest) = strip rest :=
  strip_sequence (List.all_eq_true.mp (by cases style <;> rfl)) rest

theorem strip_reset (rest : List Char) :
    strip (reset ++ rest) = strip rest :=
  strip_sequence (List.forall_mem_singleton.mpr (rfl : isAttribute '0' = true))
    rest

theorem strip_cons {character : Char} (notEscape : character ≠ escape)
    (rest : List Char) : strip (character :: rest) = character :: strip rest := by
  have noSequence : afterSequence? (character :: rest) = none := by
    unfold afterSequence?
    split
    · next isSequence => exact absurd (List.cons.inj isSequence).1 notEscape
    · rfl
  rw [strip]
  split
  · next isSequence =>
      rw [noSequence] at isSequence
      contradiction
  · rfl

/-- A text has no escape character in it. -/
def IsUnescaped (text : String) : Prop :=
  escape ∉ text.toList

instance (text : String) : Decidable (IsUnescaped text) :=
  inferInstanceAs (Decidable (escape ∉ text.toList))

theorem IsUnescaped.append {first second : String}
    (firstUnescaped : IsUnescaped first)
    (secondUnescaped : IsUnescaped second) : IsUnescaped (first ++ second) := by
  rw [IsUnescaped, String.toList_append, List.mem_append, not_or]
  exact ⟨firstUnescaped, secondUnescaped⟩

theorem isUnescaped_replicate {character : Char}
    (notEscape : character ≠ escape) (count : Nat) :
    IsUnescaped (String.ofList (List.replicate count character)) := by
  rw [IsUnescaped, String.toList_ofList]
  exact fun member => notEscape (List.eq_of_mem_replicate member).symm

theorem isUnescaped_digits (number : Nat) : IsUnescaped (toString number) :=
  fun member => absurd (Text.isDigit_of_mem_digits member) (by decide)

theorem strip_append {text : List Char} (unescaped : escape ∉ text)
    (rest : List Char) : strip (text ++ rest) = text ++ strip rest := by
  induction text with
  | nil => rfl
  | cons character text inductionHypothesis =>
      rw [List.mem_cons, not_or] at unescaped
      rw [List.cons_append, strip_cons (Ne.symm unescaped.1),
        inductionHypothesis unescaped.2]
      rfl

/-- Only a reset makes a style start again. -/
theorem reopen_eq {text : List Char} (unescaped : escape ∉ text)
    (opening : List Char) : reopen opening text = text := by
  induction text with
  | nil => rfl
  | cons character text inductionHypothesis =>
      rw [List.mem_cons, not_or] at unescaped
      rw [reopen, inductionHypothesis unescaped.2]
      rintro rest rfl
      exact absurd rfl unescaped.1

/-- Stripping a styled text leaves a plain one, also in front of other text. -/
def Shows (styled plain : String) : Prop :=
  ∀ rest, strip (styled.toList ++ rest) = plain.toList ++ strip rest

theorem Shows.strip_eq {styled plain : String} (shows : Shows styled plain) :
    strip styled.toList = plain.toList := by
  simpa [strip_nil] using shows []

theorem shows_self {text : String} (unescaped : IsUnescaped text) :
    Shows text text :=
  strip_append unescaped

theorem Shows.append {styled styledRest plain plainRest : String}
    (shows : Shows styled plain) (showsRest : Shows styledRest plainRest) :
    Shows (styled ++ styledRest) (plain ++ plainRest) := by
  intro rest
  rw [String.toList_append, String.toList_append, List.append_assoc,
    shows, showsRest, List.append_assoc]

theorem shows_paint (style : Style) {text : String}
    (unescaped : IsUnescaped text) :
    Shows (style.paint true text) (style.paint false text) := by
  intro rest
  rw [paint, if_pos rfl, paint, if_neg Bool.false_ne_true,
    String.toList_ofList, reopen_eq unescaped, List.append_assoc,
    List.append_assoc, strip_opening, strip_append unescaped, strip_reset]

/-- A styled piece in the middle of a text without styles. -/
theorem shows_between (style : Style) {before text after : String}
    (beforeUnescaped : IsUnescaped before) (unescaped : IsUnescaped text)
    (afterUnescaped : IsUnescaped after) :
    Shows (before ++ style.paint true text ++ after)
      (before ++ style.paint false text ++ after) :=
  ((shows_self beforeUnescaped).append (shows_paint style unescaped)).append
    (shows_self afterUnescaped)

theorem shows_join {Row : Type} {rows : List Row} {styled plain : Row → String}
    (shows : ∀ row ∈ rows, Shows (styled row) (plain row)) :
    Shows (String.join (rows.map styled)) (String.join (rows.map plain)) := by
  induction rows with
  | nil => exact fun _ => rfl
  | cons row others inductionHypothesis =>
      rw [List.forall_mem_cons] at shows
      rw [List.map_cons, List.map_cons, String.join_cons, String.join_cons]
      exact shows.1.append (inductionHypothesis shows.2)

end Style

namespace Report

open Style

theorem styledRow_plain (width : Nat) (row : ExcerptRow) :
    styledRow false width row = row.render width := by
  have bar : " | " = " " ++ "|" ++ " " := by decide
  cases row <;>
    simp only [styledRow, paint, ExcerptRow.render, Bool.false_eq_true,
      if_false, bar]

theorem isUnescaped_gutter (width : Nat) (row : ExcerptRow) :
    Style.IsUnescaped (row.gutter width) :=
  ExcerptRow.not_mem_gutter (by decide) (by decide) width row

theorem isUnescaped_content {source : String} {span : Span} {context : Nat}
    {shown : Excerpt}
    (found : Excerpt.around source.toList span context = .ok shown)
    {row : ExcerptRow} (isShown : row ∈ shown.rows)
    (unescaped : Style.IsUnescaped source) :
    Style.IsUnescaped row.content := by
  cases row with
  | source number text =>
      obtain ⟨index, -, -, isLine⟩ :=
        Excerpt.exists_index_of_mem found isShown
      have isPart := (Text.splitsInto_lines source.toList).isInfix text
        (List.mem_of_getElem? isLine)
      rw [ExcerptRow.content, Style.IsUnescaped, String.toList_ofList]
      exact fun member => unescaped (isPart.subset member)
  | carets offset count =>
      rw [ExcerptRow.content, String.ofList_append]
      exact (isUnescaped_replicate (by decide) _).append
        (isUnescaped_replicate (by decide) _)

theorem shows_styledRow {width : Nat} {row : ExcerptRow}
    (unescaped : Style.IsUnescaped row.content) :
    Shows (styledRow true width row) (styledRow false width row) := by
  have gutter := isUnescaped_gutter width row
  have bar : Shows (" " ++ Style.blue.paint true "|" ++ " ")
      (" " ++ Style.blue.paint false "|" ++ " ") :=
    shows_between .blue (by decide) (by decide) (by decide)
  cases row with
  | source number text =>
      exact ((shows_paint .blue gutter).append bar).append
        (shows_self unescaped)
  | carets offset count =>
      exact ((shows_self gutter).append bar).append
        (shows_paint .red unescaped)

namespace Content

/-- The line that says what the problem is. -/
def heading (content : Content) : String :=
  content.severity.label ++ "[" ++ content.label ++ "]: " ++ content.message ++
    "\n"

/-- The line that says where the problem is. -/
def place (content : Content) : String :=
  match content.file with
  | none => ""
  | some file => "  --> " ++ file ++ ":" ++ content.span.start.display ++ "\n"

/-- The excerpt of the source, as it is. -/
def shown (content : Content) : Except Abort String :=
  match content.source with
  | none => .ok ""
  | some source =>
      Excerpt.textAround source.toList content.span content.context

/-- The lines of a report without styles. -/
def plain (content : Content) : Except Abort String :=
  content.shown.map fun shown => content.heading ++ content.place ++ shown

variable (content : Content)

theorem header_plain : content.header false = content.heading := by
  have ending : "]: " = "]:" ++ " " := by decide
  simp only [header, heading, paint, Bool.false_eq_true, if_false, ending,
    String.append_assoc]

theorem location_plain : content.location false = content.place := by
  have arrow : "  --> " = "  " ++ "-->" ++ " " := by decide
  rw [location, place]
  cases content.file with
  | none => rfl
  | some file => simp only [paint, Bool.false_eq_true, if_false, arrow]

theorem excerpt_plain : content.excerpt false = content.shown := by
  cases hasSource : content.source with
  | none => simp only [excerpt, shown, hasSource]
  | some source =>
      simp only [excerpt_eq hasSource, styledRow_plain, shown, hasSource,
        Excerpt.textAround]
      rfl

theorem render_plain : content.render false = content.plain := by
  rw [render, plain, header_plain, location_plain, excerpt_plain]

/-- Nothing that a report shows has an escape character in it. -/
structure IsUnescaped : Prop where
  label : Style.IsUnescaped content.label
  message : Style.IsUnescaped content.message
  file : ∀ file ∈ content.file, Style.IsUnescaped file
  source : ∀ source ∈ content.source, Style.IsUnescaped source

variable {content} (unescaped : content.IsUnescaped)

include unescaped

theorem shows_header : Shows (content.header true) (content.header false) := by
  have severity : Style.IsUnescaped content.severity.label := by
    cases content.severity <;> decide
  have label : Style.IsUnescaped
      (content.severity.label ++ "[" ++ content.label ++ "]:") :=
    ((severity.append (by decide)).append unescaped.label).append (by decide)
  exact (((shows_paint _ label).append (shows_self (by decide))).append
    (shows_paint .bold unescaped.message)).append (shows_self (by decide))

theorem shows_location :
    Shows (content.location true) (content.location false) := by
  unfold location
  split
  · exact shows_self (by decide)
  · next file hasFile =>
      have arrow : Shows ("  " ++ Style.blue.paint true "-->" ++ " ")
          ("  " ++ Style.blue.paint false "-->" ++ " ") :=
        shows_between .blue (by decide) (by decide) (by decide)
      have name : Shows file file := shows_self (unescaped.file file hasFile)
      have start : Style.IsUnescaped content.span.start.display :=
        ((isUnescaped_digits _).append (by decide)).append
          (isUnescaped_digits _)
      exact (((arrow.append name).append (shows_self (by decide))).append
        (shows_self start)).append (shows_self (by decide))

/-- With and without colors a report has the same excerpt, or stops the program for
the same reason. -/
theorem excerpt_cases :
    (∃ styled plain, content.excerpt true = .ok styled ∧
      content.excerpt false = .ok plain ∧ Shows styled plain) ∨
    ∃ abort, content.excerpt true = .error abort ∧
      content.excerpt false = .error abort := by
  cases hasSource : content.source with
  | none =>
      simp only [excerpt, hasSource]
      exact Or.inl ⟨"", "", rfl, rfl, shows_self (by decide)⟩
  | some source =>
      rw [excerpt_eq hasSource, excerpt_eq hasSource]
      cases found : Excerpt.around source.toList content.span
        content.context with
      | error abort => exact Or.inr ⟨abort, rfl, rfl⟩
      | ok shown =>
          refine Or.inl ⟨_, _, rfl, rfl, shows_join fun row isShown => ?_⟩
          have rowContent := isUnescaped_content found isShown
            (unescaped.source source hasSource)
          exact (shows_styledRow rowContent).append (shows_self (by decide))

theorem strip_render :
    (content.render true).map (fun text => strip text.toList) =
      (content.render false).map String.toList := by
  rw [render, render]
  rcases excerpt_cases unescaped with
    ⟨styled, plain, excerpt, plainExcerpt, shows⟩ | ⟨abort, excerpt, plainExcerpt⟩
  · rw [excerpt, plainExcerpt]
    exact congrArg Except.ok (((shows_header unescaped).append
      (shows_location unescaped)).append shows).strip_eq
  · rw [excerpt, plainExcerpt]
    rfl

omit unescaped

/-- A report has its lines as long as the sum that ends its excerpt is a word. -/
theorem exists_plain (fits : ∀ source ∈ content.source,
      content.span.start.line + content.context < UInt64.size) :
    ∃ text, content.plain = .ok text := by
  rw [plain, shown]
  cases hasSource : content.source with
  | none => exact ⟨_, rfl⟩
  | some source =>
      obtain ⟨shown, found⟩ : ∃ shown, Excerpt.around source.toList
          content.span content.context = .ok shown :=
        Excerpt.exists_around (fits source hasSource)
      dsimp only
      rw [Excerpt.textAround_of_around found]
      exact ⟨_, rfl⟩

/-- Without colors a report is its plain lines, and it has these as long as the sum
that ends its excerpt is a word.  With colors it is the same text with style sequences
in it. -/
theorem addsOnlyStyles (content : Content) :
    content.render false = content.plain ∧
      (content.IsUnescaped →
        (content.render true).map (fun text => strip text.toList) =
          content.plain.map String.toList) ∧
      ((∀ source ∈ content.source,
          content.span.start.line + content.context < UInt64.size) →
        ∃ text, content.plain = .ok text) := by
  refine ⟨content.render_plain, fun unescaped => ?_, exists_plain⟩
  rw [← content.render_plain]
  exact strip_render unescaped

end Content

/-- A report on a line that looks like a row of an excerpt, between an empty line and
one that begins with a separator. -/
def gutterLike : Report where
  diagnostic := ⟨.invalidUses, ⟨⟨1, 4⟩, ⟨1, 7⟩⟩⟩
  file := some "a | b"
  source := some "\r  7 | c\r\n | d"
  context := 1

theorem addsOnlyStyles_gutterLike :
    gutterLike.content.IsUnescaped ∧
      (∀ source ∈ gutterLike.source, 1 + 1 < UInt64.size) ∧
      gutterLike.render false = gutterLike.content.plain ∧
      (gutterLike.render true).map (fun text => strip text.toList) =
        gutterLike.content.plain.map String.toList ∧
      ∃ text, gutterLike.content.plain = .ok text := by
  have unescaped : gutterLike.content.IsUnescaped := {
    label := by decide
    message := by decide
    file := by decide
    source := by decide }
  have fits : ∀ source ∈ gutterLike.source, 1 + 1 < UInt64.size :=
    fun _ _ => by decide
  obtain ⟨plain, styled, exists_text⟩ := gutterLike.content.addsOnlyStyles
  exact ⟨unescaped, fits, plain, styled unescaped, exists_text fits⟩

example :
    gutterLike.content.plain =
      .ok (gutterLike.diagnostic.display ++
        "\n  --> a | b:2:5\n  1 | \n  2 |   7 | c\n    |     ^^^\n" ++
          "  3 |  | d\n") := by
  decide +kernel

end Report
end WorkflowLang
