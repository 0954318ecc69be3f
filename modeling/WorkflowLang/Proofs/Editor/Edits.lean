import WorkflowLang.Editor.Rename
import WorkflowLang.Proofs.Token.Replacing

/-!
# Applying edits

An editor finds the place of an edit by walking over the text: a position stands
for the characters that end no later than it, so a column behind its line means
the end of the line.  Edits refer to the text as it was; they are applied from
the first to the last and must not overlap.

Edits between the quotes of some strings of a text make the text in which these
strings are replaced (`TextEdit.applyFrom_pieces`).
-/

namespace WorkflowLang

namespace Position

theorem le_advance (position : Position) (text : List Char) :
    position ≤ position.advance text := by
  fun_induction advance position text with
  | case1 position => exact position.le_refl
  | case2 position _ inductionHypothesis =>
      exact le_trans position.le_nextLine inductionHypothesis
  | case3 position _ _ _ _ inductionHypothesis =>
      exact le_trans position.le_nextLine inductionHypothesis
  | case4 position character _ _ _ inductionHypothesis =>
      exact le_trans (position.le_right _) inductionHypothesis

theorem not_nextLine_le (position : Position) :
    ¬position.nextLine ≤ position := by
  simp only [le_def, nextLine]
  omega

end Position

namespace Text

/-- The number of characters that end no later than a position, in a text that
begins at `here`. -/
def offsetFrom (here : Position) : List Char → Position → Nat
  | [], _ => 0
  | '\r' :: '\n' :: rest, position =>
      if here.nextLine ≤ position then
        offsetFrom here.nextLine rest position + 2
      else 0
  | character :: rest, position =>
      let next :=
        if isLineBreak character then here.nextLine
        else here.right (unitWidth character)
      if next ≤ position then offsetFrom next rest position + 1 else 0

def offset (text : List Char) (position : Position) : Nat :=
  offsetFrom Position.origin text position

theorem offsetFrom_self (here : Position) (text : List Char) :
    offsetFrom here text here = 0 := by
  unfold offsetFrom
  split
  · rfl
  · exact if_neg here.not_nextLine_le
  · apply if_neg
    split
    · exact here.not_nextLine_le
    · exact Position.not_right_le (unitWidth_pos _)

/-- The position behind a part of a text stands for that part. -/
theorem offsetFrom_append {before after : List Char}
    (whole : before.getLast? = some '\r' → after.head? ≠ some '\n')
    (here : Position) :
    offsetFrom here (before ++ after) (here.advance before) =
      before.length := by
  fun_induction Position.advance here before with
  | case1 here => exact offsetFrom_self here after
  | case2 here others inductionHypothesis =>
      have behind := inductionHypothesis fun ends =>
        whole (by simp [List.getLast?_cons, ends])
      rw [List.cons_append, List.cons_append, offsetFrom,
        if_pos (Position.le_advance _ _), behind]
      rfl
  | case3 here character others notPair isBreak inductionHypothesis =>
      have behind := inductionHypothesis fun ends =>
        whole (by simp [List.getLast?_cons, ends])
      rw [List.cons_append, offsetFrom]
      · simp only [isBreak, if_true]
        rw [if_pos (Position.le_advance _ _), behind]
        rfl
      · rintro rest rfl feed
        cases others with
        | nil => exact whole rfl (by simpa using congrArg List.head? feed)
        | cons next others =>
            obtain ⟨rfl, -⟩ := List.cons.inj feed
            exact notPair others rfl rfl
  | case4 here character others notPair notBreak inductionHypothesis =>
      have behind := inductionHypothesis fun ends =>
        whole (by simp [List.getLast?_cons, ends])
      rw [List.cons_append, offsetFrom]
      · simp only [notBreak, Bool.false_eq_true, if_false]
        rw [if_pos (Position.le_advance _ _), behind]
        rfl
      · rintro rest rfl -
        exact absurd rfl notBreak

theorem offset_endPosition {before after : List Char}
    (whole : before.getLast? = some '\r' → after.head? ≠ some '\n') :
    offset (before ++ after) (endPosition before) = before.length :=
  offsetFrom_append whole Position.origin

/-- A column behind its line stands for the end of the line. -/
example : offset "ab\r\ncd".toList ⟨0, 9⟩ = 2 := by decide

/-- No line break is divided behind a character that is none. -/
theorem offset_endPosition_of_notBreak {before characters after : List Char}
    (nonempty : characters ≠ [])
    (oneLine : ∀ character ∈ characters, isLineBreak character = false) :
    offset (before ++ characters ++ after)
        (endPosition (before ++ characters)) =
      (before ++ characters).length := by
  apply offset_endPosition
  rw [List.getLast?_append_of_ne_nil _ nonempty]
  intro ends
  have isReturn := oneLine '\r' (List.mem_of_getLast? ends)
  exact absurd isReturn (by decide)

end Text

namespace TextEdit

/-- What edits that follow each other make of a text behind the characters passed
so far; nothing when they overlap. -/
def applyFrom (text : List Char) (passed : Nat) :
    List TextEdit → Option (List Char)
  | [] => some (text.drop passed)
  | edit :: others =>
      let start := Text.offset text edit.span.start
      let finish := Text.offset text edit.span.finish
      if passed ≤ start ∧ start ≤ finish then
        (applyFrom text finish others).map fun behind =>
          (text.drop passed).take (start - passed) ++ edit.newText.toList ++
            behind
      else none

/-- What a text becomes when edits are applied to it. -/
def applyAll (edits : List TextEdit) (text : String) : Option String :=
  let ordered := edits.mergeSort fun first second =>
    decide (first.span.start ≤ second.span.start)
  (applyFrom text.toList 0 ordered).map String.ofList

/-- An edit puts a name between the quotes of a string. -/
def Renames (name : String) (token : Token) (edit : TextEdit) : Prop :=
  ∃ inner, token.text.toList = '"' :: (inner ++ ['"']) ∧
    edit = ⟨⟨token.span.start.right 1,
      token.span.start.right (1 + Text.units inner)⟩, name⟩

/-- An edit within a piece of text that begins behind the characters passed. -/
theorem applyFrom_cons {text front inner back : List Char} {passed : Nat}
    {edit : TextEdit} (whole : front ++ inner ++ back = text)
    (start : Text.offset text edit.span.start = front.length)
    (finish : Text.offset text edit.span.finish = (front ++ inner).length)
    (behind : passed ≤ front.length) (others : List TextEdit) :
    applyFrom text passed (edit :: others) =
      (applyFrom text (front ++ inner).length others).map fun rest =>
        front.drop passed ++ edit.newText.toList ++ rest := by
  have inOrder : passed ≤ front.length ∧
      front.length ≤ (front ++ inner).length := by
    constructor
    · exact behind
    · rw [List.length_append]
      exact Nat.le_add_right _ _
  have kept : (text.drop passed).take (front.length - passed) =
      front.drop passed := by
    rw [← whole, List.append_assoc, List.drop_append_of_le_length behind]
    apply List.take_left'
    rw [List.length_drop]
  rw [applyFrom]
  simp only [start, finish]
  rw [if_pos inOrder, kept]

/-- The places of an edit that renames a string of a text. -/
theorem Renames.exists_offsets {name : String} {piece : SpacedToken}
    {edit : TextEdit} (renames : Renames name piece.token edit)
    {before text : List Char} (stands : piece.StandsBehind before)
    (after : List Char)
    (whole : before ++ piece.gap ++ piece.token.text.toList ++ after = text) :
    ∃ inner, piece.token.text.toList = '"' :: (inner ++ ['"']) ∧
      edit.newText = name ∧
      Text.offset text edit.span.start =
        (before ++ piece.gap ++ ['"']).length ∧
      Text.offset text edit.span.finish =
        (before ++ piece.gap ++ ['"'] ++ inner).length := by
  obtain ⟨inner, characters, rfl⟩ := renames
  have oneLine : ∀ character ∈ '"' :: inner,
      Text.isLineBreak character = false := by
    intro character member
    apply stands.oneLine
    rw [characters, ← List.cons_append]
    exact List.mem_append_left _ member
  have quoteLine : ∀ character ∈ ['"'],
      Text.isLineBreak character = false := by
    intro character member
    rw [List.mem_singleton.mp member]
    rfl
  have quoteUnits : Text.units ['"'] = 1 := by decide
  have innerUnits : Text.units ('"' :: inner) = 1 + Text.units inner := by
    rw [Text.units_cons]
    rfl
  refine ⟨inner, characters, rfl, ?_, ?_⟩
  · have place := @Text.offset_endPosition_of_notBreak
      (before ++ piece.gap) ['"'] (inner ++ ['"'] ++ after)
      (List.cons_ne_nil '"' []) quoteLine
    rw [stands.start_eq, ← quoteUnits,
      ← Text.endPosition_append_right quoteLine, ← whole, characters]
    simpa using place
  · have place := @Text.offset_endPosition_of_notBreak
      (before ++ piece.gap) ('"' :: inner) (['"'] ++ after)
      (List.cons_ne_nil '"' inner) oneLine
    rw [stands.start_eq, ← innerUnits,
      ← Text.endPosition_append_right oneLine, ← whole, characters]
    simpa using place

/-- An edit that renames a string, in front of others that go on behind it. -/
theorem Renames.applyFrom_cons {name : String} {piece : SpacedToken}
    {edit : TextEdit} (renames : Renames name piece.token edit)
    {before after text : List Char} (stands : piece.StandsBehind before)
    (whole : before ++ piece.gap ++ piece.token.text.toList ++ after = text)
    {passed : Nat} (behind : passed ≤ before.length)
    {others : List TextEdit} {rest : List Char}
    (goOn : ∀ place,
      place ≤ (before ++ piece.gap ++ piece.token.text.toList).length →
        applyFrom text place others =
          some ((before ++ piece.gap ++ piece.token.text.toList).drop place ++
            rest)) :
    applyFrom text passed (edit :: others) =
      some (before.drop passed ++ piece.gap ++ (Text.quoted name).toList ++
        rest) := by
  obtain ⟨inner, characters, newText, start, finish⟩ :=
    renames.exists_offsets stands after whole
  have split : before ++ piece.gap ++ piece.token.text.toList =
      before ++ piece.gap ++ ['"'] ++ inner ++ ['"'] := by
    rw [characters]
    simp
  have inside : before ++ piece.gap ++ ['"'] ++ inner ++ (['"'] ++ after) =
      text := by
    rw [← whole, split]
    simp
  have passedQuote : passed ≤ (before ++ piece.gap ++ ['"']).length := by
    simp only [List.length_append]
    omega
  have closes : (before ++ piece.gap ++ ['"'] ++ inner).length ≤
      (before ++ piece.gap ++ piece.token.text.toList).length := by
    rw [split]
    simp only [List.length_append]
    omega
  have opens : (before ++ piece.gap ++ ['"']).drop passed =
      before.drop passed ++ piece.gap ++ ['"'] := by
    rw [List.append_assoc, List.drop_append_of_le_length behind,
      List.append_assoc]
  have applied := goOn _ closes
  rw [split, List.drop_left] at applied
  rw [TextEdit.applyFrom_cons inside start finish passedQuote, applied, opens,
    newText, Text.toList_quoted]
  simp

/-- Edits that rename some strings of a text make the text with other strings in
their place. -/
theorem applyFrom_pieces {naming : List Token} {name : String}
    {edit : Token → TextEdit} {text closing : List Char}
    {pieces : List SpacedToken}
    (renames : ∀ piece ∈ pieces, piece.token ∈ naming →
      Renames name piece.token (edit piece.token))
    {before : List Char} {passed : Nat}
    (whole : before ++ SpacedToken.text pieces ++ closing = text)
    (stands : ∀ front piece back, pieces = front ++ piece :: back →
      piece.StandsBehind (before ++ SpacedToken.text front))
    (behind : passed ≤ before.length) :
    applyFrom text passed
        (((pieces.map SpacedToken.token).filter
          fun token => decide (token ∈ naming)).map edit) =
      some (before.drop passed ++
        (SpacedToken.text (pieces.map
          (SpacedToken.mapToken (Token.renameAmong naming name))) ++
        closing)) := by
  -- An edit ends in front of a closing quote, so the characters passed stop
  -- inside the last renamed string and not behind it.
  induction pieces generalizing before passed with
  | nil =>
      rw [SpacedToken.text, List.flatMap_nil, List.append_nil] at whole
      rw [← whole]
      simp [applyFrom, SpacedToken.text, List.drop_append_of_le_length behind]
  | cons piece others inductionHypothesis =>
      have here : piece.StandsBehind before := by
        simpa [SpacedToken.text] using stands [] piece others rfl
      have othersRename : ∀ other ∈ others, other.token ∈ naming →
          Renames name other.token (edit other.token) := by
        intro other member
        exact renames other (List.mem_cons_of_mem _ member)
      have othersWhole : before ++ piece.gap ++ piece.token.text.toList ++
          SpacedToken.text others ++ closing = text := by
        rw [← whole]
        simp
      have othersStand : ∀ front other back,
          others = front ++ other :: back →
            other.StandsBehind (before ++ piece.gap ++
              piece.token.text.toList ++ SpacedToken.text front) := by
        intro front other back split
        have stand := stands (piece :: front) other back (by rw [split]; rfl)
        simpa using stand
      have goOn (place : Nat) := @inductionHypothesis othersRename _ place
        othersWhole othersStand
      by_cases chosen : piece.token ∈ naming
      · have rename := renames piece List.mem_cons_self chosen
        rw [List.append_assoc] at othersWhole
        rw [List.map_cons, List.filter_cons_of_pos (by simpa using chosen),
          List.map_cons, rename.applyFrom_cons here othersWhole behind goOn]
        simp [SpacedToken.mapToken, Token.renameAmong_of_mem chosen]
      · have later : passed ≤ (before ++ piece.gap ++
            piece.token.text.toList).length := by
          simp only [List.length_append]
          omega
        rw [List.map_cons, List.filter_cons_of_neg (by simpa using chosen),
          goOn passed later]
        simp [SpacedToken.mapToken, Token.renameAmong_of_notMem chosen,
          List.drop_append_of_le_length behind]

end TextEdit

end WorkflowLang
