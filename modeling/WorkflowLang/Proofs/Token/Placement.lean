import WorkflowLang.Proofs.Token.Order
import WorkflowLang.Proofs.Token.Spacing
import Mathlib.Data.List.Basic

/-!
# Where tokens stand

A scan takes a text apart into tokens and the gaps between them, and it knows at
every moment the position of the text that it has passed.  `Scan.Cuts` records
one such run, token by token.  From it the text is put together again and every
span is found to be the one of the token's own characters
(`Scan.ofText_lossless`).
-/

namespace WorkflowLang

namespace Position

/-- Walking over a text is walking over its parts, unless they divide a line
break. -/
theorem advance_append {first second : List Char}
    (whole : first.getLast? = some '\r' → second.head? ≠ some '\n')
    (position : Position) :
    position.advance (first ++ second) =
      (position.advance first).advance second := by
  fun_induction Position.advance position first with
  | case1 position => rfl
  | case2 position others inductionHypothesis =>
      rw [List.cons_append, List.cons_append, advance]
      exact inductionHypothesis fun ends =>
        whole (by simp [List.getLast?_cons, ends])
  | case3 position character others notPair isBreak inductionHypothesis =>
      rw [List.cons_append, advance, if_pos isBreak]
      · exact inductionHypothesis fun ends =>
          whole (by simp [List.getLast?_cons, ends])
      · intro rest isReturn behind
        apply Text.alone_append notPair whole isReturn
        rw [behind, List.head?_cons]
  | case4 position character others notPair notBreak inductionHypothesis =>
      rw [List.cons_append,
        advance_of_not_isLineBreak (Bool.eq_false_iff.mpr notBreak)]
      exact inductionHypothesis fun ends =>
        whole (by simp [List.getLast?_cons, ends])

end Position

theorem Text.units_append (first second : List Char) :
    units (first ++ second) = units first + units second := by
  induction first with
  | nil => simp
  | cons character others inductionHypothesis =>
      rw [List.cons_append, units_cons, units_cons, inductionHypothesis,
        Nat.add_assoc]

theorem Text.endPosition_append {first second : List Char}
    (whole : first.getLast? = some '\r' → second.head? ≠ some '\n') :
    endPosition (first ++ second) = (endPosition first).advance second :=
  Position.advance_append whole _

theorem Text.endPosition_append_right {characters : List Char}
    (oneLine : ∀ character ∈ characters, Text.isLineBreak character = false)
    (before : List Char) :
    endPosition (before ++ characters) =
      (endPosition before).right (units characters) := by
  rw [endPosition_append, Position.advance_eq_right oneLine]
  intro _ begins
  have isFeed := oneLine '\n' (List.mem_of_head? begins)
  exact absurd isFeed (by decide)

namespace Scan

/-- How a scan takes a text apart that stands behind another one: the tokens with
the gaps before them, and the reports on the way. -/
inductive Cuts : (before text : List Char) → List SpacedToken →
    List Diagnostic → Prop
  | finish {before closing : List Char}
      (blank : ∀ character ∈ closing, IsGap character) :
      Cuts before closing [] []
  | piece {before gap rest : List Char} {first : Char} {place : Position}
      {lexeme : Lexeme} {others : List SpacedToken}
      {reports : List Diagnostic}
      (blank : ∀ character ∈ gap, IsGap character)
      (begins : BeginsToken first)
      (here : Text.endPosition (before ++ gap) = place)
      (cut : Lexeme.cut place first rest = lexeme)
      (behind : Cuts (before ++ gap ++ lexeme.characters) lexeme.rest others
        reports) :
      Cuts before (gap ++ first :: rest)
        (⟨gap, lexeme.toToken place⟩ :: others)
        (lexeme.diagnostics ++ reports)

/-- A scan that has passed `before` and a part of a gap takes the rest apart. -/
theorem exists_cuts {position : Position} {text : List Char}
    {before gap : List Char} (blank : ∀ character ∈ gap, IsGap character)
    (here : Text.endPosition (before ++ gap) = position)
    (whole : (before ++ gap).getLast? = some '\r' →
      text.head? ≠ some '\n') :
    ∃ pieces, pieces.map SpacedToken.token =
        (scanFrom position text).tokens ∧
      Cuts before (gap ++ text) pieces
        (scanFrom position text).diagnostics := by
  -- The induction moves passed blanks to the gap, so the gap has to be free.
  fun_induction scanFrom position text generalizing before gap with
  | case1 position =>
      rw [List.append_nil]
      exact ⟨[], rfl, .finish blank⟩
  | case2 position rest inductionHypothesis =>
      have gapBlank : ∀ character ∈ gap ++ ['\r', '\n'],
          IsGap character := by
        simp only [List.mem_append, List.mem_cons, List.not_mem_nil, or_false]
        rintro character (member | rfl | rfl)
        · exact blank character member
        · exact Or.inl rfl
        · exact Or.inl rfl
      have place : Text.endPosition (before ++ (gap ++ ['\r', '\n'])) =
          position.nextLine := by
        rw [← List.append_assoc, Text.endPosition_append (by simp), here]
        rfl
      simpa using inductionHypothesis gapBlank place (by simp)
  | case3 position character rest notPair isBreak inductionHypothesis =>
      have gapBlank : ∀ other ∈ gap ++ [character], IsGap other := by
        simp only [List.mem_append, List.mem_singleton]
        rintro other (member | rfl)
        · exact blank other member
        · exact Or.inl isBreak
      have place : Text.endPosition (before ++ (gap ++ [character])) =
          position.nextLine := by
        rw [← List.append_assoc,
          Text.endPosition_append (by simpa using whole), here,
          Position.advance, if_pos isBreak, Position.advance]
        simp
      have alone : (before ++ (gap ++ [character])).getLast? = some '\r' →
          rest.head? ≠ some '\n' := by
        rw [← List.append_assoc, List.getLast?_concat]
        rintro ends feed
        obtain ⟨others, rfl⟩ := List.head?_eq_some_iff.mp feed
        exact notPair others (Option.some.inj ends) rfl
      simpa using inductionHypothesis gapBlank place alone
  | case4 position character rest notPair notBreak isBlank
      inductionHypothesis =>
      have gapBlank : ∀ other ∈ gap ++ [character], IsGap other := by
        simp only [List.mem_append, List.mem_singleton]
        rintro other (member | rfl)
        · exact blank other member
        · exact Or.inr isBlank
      have oneLine : ∀ other ∈ [character],
          Text.isLineBreak other = false := by
        simpa using notBreak
      have width : Text.units [character] = 1 := by
        rcases isBlank with rfl | rfl <;> decide
      have place : Text.endPosition (before ++ (gap ++ [character])) =
          position.right 1 := by
        rw [← List.append_assoc, Text.endPosition_append_right oneLine, here,
          width]
      have alone : (before ++ (gap ++ [character])).getLast? = some '\r' →
          rest.head? ≠ some '\n' := by
        rw [← List.append_assoc, List.getLast?_concat]
        intro ends
        rw [Option.some.inj ends] at notBreak
        exact absurd rfl notBreak
      simpa using inductionHypothesis gapBlank place alone
  | case5 position character rest notPair notBreak notBlank lexeme finish
      token =>
      rename_i others inductionHypothesis
      have begins : BeginsToken character :=
        ⟨Bool.eq_false_iff.mpr notBreak, notBlank⟩
      have oneLine := Lexeme.oneLine_cut begins position rest
      have place : Text.endPosition
          (before ++ gap ++ lexeme.characters ++ []) = finish := by
        rw [List.append_nil, Text.endPosition_append_right oneLine, here]
      have alone : (before ++ gap ++ lexeme.characters ++ []).getLast? =
          some '\r' → lexeme.rest.head? ≠ some '\n' := by
        have nonempty := Lexeme.characters_cut_ne_nil position character rest
        rw [List.append_nil, List.getLast?_append_of_ne_nil _ nonempty]
        intro ends
        have isReturn := oneLine '\r' (List.mem_of_getLast? ends)
        exact absurd isReturn (by decide)
      obtain ⟨pieces, tokens, behind⟩ :=
        inductionHypothesis (by simp) place alone
      refine ⟨⟨gap, lexeme.toToken position⟩ :: pieces, ?_, ?_⟩
      · exact congrArg _ tokens
      · exact .piece blank begins here rfl behind

theorem exists_cuts_ofText (text : String) :
    ∃ pieces, pieces.map SpacedToken.token = (ofText text).tokens ∧
      Cuts [] text.toList pieces (ofText text).diagnostics :=
  @exists_cuts Position.origin text.toList [] [] (by simp) rfl (by simp)

end Scan

namespace SpacedToken

/-- A token that stands behind a text and a gap: it is a piece of a line, and its
span is the place of its characters. -/
structure StandsBehind (before : List Char) (piece : SpacedToken) : Prop where
  blank : ∀ character ∈ piece.gap, IsGap character
  text_ne_empty : piece.token.text ≠ ""
  oneLine : ∀ character ∈ piece.token.text.toList,
    Text.isLineBreak character = false
  start_eq : piece.token.span.start = Text.endPosition (before ++ piece.gap)
  finish_eq : piece.token.span.finish =
    Text.endPosition (before ++ piece.gap ++ piece.token.text.toList)

@[simp] theorem text_cons (piece : SpacedToken) (others : List SpacedToken) :
    text (piece :: others) =
      piece.gap ++ piece.token.text.toList ++ text others := rfl

end SpacedToken

namespace Scan.Cuts

variable {before text : List Char} {pieces : List SpacedToken}
  {reports : List Diagnostic}

theorem exists_closing (cuts : Cuts before text pieces reports) :
    ∃ closing, (∀ character ∈ closing, IsGap character) ∧
      SpacedToken.text pieces ++ closing = text := by
  induction cuts with
  | @finish _ closing blank => exact ⟨closing, blank, rfl⟩
  | @piece _ gap rest first place lexeme _ _ _ _ _ cut _
      inductionHypothesis =>
      obtain ⟨closing, blank, split⟩ := inductionHypothesis
      have whole := Lexeme.cut_append place first rest
      rw [cut] at whole
      refine ⟨closing, blank, ?_⟩
      simp [Lexeme.toToken, split, whole]

theorem standsBehind (cuts : Cuts before text pieces reports)
    {front back : List SpacedToken} {piece : SpacedToken}
    (split : pieces = front ++ piece :: back) :
    piece.StandsBehind (before ++ SpacedToken.text front) := by
  induction cuts generalizing front with
  | finish => simp at split
  | @piece before gap rest first place lexeme others _ blank begins here cut
      behind inductionHypothesis =>
      cases front with
      | nil =>
          obtain ⟨rfl, -⟩ := List.cons.inj split
          have nonempty := Lexeme.characters_cut_ne_nil place first rest
          have oneLine := Lexeme.oneLine_cut begins place rest
          rw [cut] at nonempty oneLine
          refine ⟨blank, ?_, ?_, ?_, ?_⟩
          · simpa [Lexeme.toToken] using nonempty
          · simpa [Lexeme.toToken] using oneLine
          · simpa [Lexeme.toToken, SpacedToken.text] using here.symm
          · simp only [Lexeme.toToken, SpacedToken.text, List.flatMap_nil,
              List.append_nil, String.toList_ofList]
            rw [Text.endPosition_append_right oneLine, here]
      | cons head front =>
          obtain ⟨rfl, behind⟩ := List.cons.inj split
          have stands := inductionHypothesis behind
          simpa [Lexeme.toToken] using stands

end Scan.Cuts

/-- A position inside a span, its finish excluded. -/
def Span.Encloses (span : Span) (position : Position) : Prop :=
  span.start ≤ position ∧ ¬span.finish ≤ position

/-- Two spans that follow each other strictly and share no position. -/
structure Span.Precedes (first second : Span) : Prop where
  finish_le : first.finish ≤ second.start
  start_lt : ¬second.start ≤ first.start
  disjoint : ∀ position,
    ¬(first.Encloses position ∧ second.Encloses position)

theorem Token.IsWide.not_finish_le {token : Token} (wide : token.IsWide) :
    ¬token.span.finish ≤ token.span.start := by
  obtain ⟨width, positive, finish⟩ := wide
  rw [finish]
  exact Position.not_right_le positive

theorem Token.IsBefore.precedes {first second : Token}
    (before : first.IsBefore second) (wide : first.IsWide) :
    first.span.Precedes second.span := by
  refine ⟨before, before.not_start_le wide, ?_⟩
  rintro position ⟨⟨-, notPast⟩, inSecond, -⟩
  exact notPast (Position.le_trans before inSecond)

/-- Tokens account for a text: with gaps between them and blanks at the end they
are the text, each stands where its span says, and the spans follow each other. -/
structure Token.AccountFor (text : List Char) (tokens : List Token)
    (pieces : List SpacedToken) (closing : List Char) : Prop where
  tokens_eq : pieces.map SpacedToken.token = tokens
  text_eq : SpacedToken.text pieces ++ closing = text
  blank : ∀ character ∈ closing, IsGap character
  standsBehind : ∀ front piece back, pieces = front ++ piece :: back →
    piece.StandsBehind (SpacedToken.text front)
  not_finish_le : ∀ token ∈ tokens, ¬token.span.finish ≤ token.span.start
  precedes : tokens.Pairwise
    fun first second => first.span.Precedes second.span

/-- Scanning loses no character but blanks and line breaks between tokens, and
every token stands where its span says. -/
theorem Scan.ofText_lossless (text : String) :
    ∃ pieces closing,
      Token.AccountFor text.toList (ofText text).tokens pieces closing := by
  obtain ⟨pieces, tokens, cuts⟩ := exists_cuts_ofText text
  obtain ⟨closing, blank, whole⟩ := cuts.exists_closing
  refine ⟨pieces, closing, tokens, whole, blank, ?_, ?_, ?_⟩
  · intro front piece back split
    exact cuts.standsBehind split
  · intro token member
    exact (isWide_of_mem member).not_finish_le
  · refine (pairwise_isBefore Position.origin text.toList).imp_of_mem ?_
    intro first second isFirst _ before
    exact before.precedes (isWide_of_mem isFirst)

/-- A pair of break characters is one break, and a character outside the basic
plane is two columns wide. -/
example : (Scan.ofText "a\r\n\r\"😀\"b").tokens.map Token.span =
    [⟨⟨0, 0⟩, ⟨0, 1⟩⟩, ⟨⟨2, 0⟩, ⟨2, 4⟩⟩, ⟨⟨2, 4⟩, ⟨2, 5⟩⟩] := by
  decide +kernel

end WorkflowLang
