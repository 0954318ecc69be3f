import WorkflowLang.Proofs.Token.Faults
import WorkflowLang.Proofs.Token.Placement

/-!
# Scanning line by line

No token goes on behind a line break, and scanning keeps nothing but its position
there: a string, a comment or a lone slash ends in front of a line break as it ends
with the text.  So two texts with a line feed between them are scanned each for itself,
and the second one finds its tokens and reports further down (`Scan.ofText_joined`).
-/

namespace WorkflowLang

/-! ## Moving down -/

/-- The number of line breaks of a text. -/
def Text.breakCount : List Char → Nat
  | [] => 0
  | '\r' :: '\n' :: rest => breakCount rest + 1
  | character :: rest =>
      if isLineBreak character then breakCount rest + 1 else breakCount rest

namespace Position

def down (count : Nat) (position : Position) : Position :=
  ⟨position.line + count, position.column⟩

theorem down_right (count : Nat) (position : Position) (width : Nat) :
    (position.right width).down count = (position.down count).right width := rfl

theorem down_zero (position : Position) : position.down 0 = position := rfl

theorem down_nextLine (count : Nat) (position : Position) :
    position.nextLine.down count = (position.down count).nextLine := by
  simp only [down, nextLine, Nat.add_right_comm]

/-- Walking over a text passes its line breaks. -/
theorem line_advance (position : Position) (text : List Char) :
    (position.advance text).line = position.line + Text.breakCount text := by
  fun_induction advance position text with
  | case1 => rfl
  | case2 position rest inductionHypothesis =>
      rw [inductionHypothesis, Text.breakCount]
      simp only [nextLine]
      omega
  | case3 position character rest notPair isBreak inductionHypothesis =>
      rw [inductionHypothesis, Text.breakCount, if_pos isBreak]
      · simp only [nextLine]
        omega
      · exact notPair
  | case4 position character rest notPair notBreak inductionHypothesis =>
      rw [inductionHypothesis, Text.breakCount, if_neg notBreak]
      · rfl
      · exact notPair

end Position

def Span.down (count : Nat) (span : Span) : Span :=
  ⟨span.start.down count, span.finish.down count⟩

def Token.down (count : Nat) (token : Token) : Token :=
  { token with span := token.span.down count }

theorem Token.down_zero (token : Token) : token.down 0 = token := rfl

def Diagnostic.down (count : Nat) (diagnostic : Diagnostic) : Diagnostic :=
  { diagnostic with span := diagnostic.span.down count }

/-- A string is reported further down for the same pieces. -/
theorem StringPiece.faults_down (count : Nat) (place : Position)
    (pieces : List StringPiece) :
    faults (place.down count) pieces =
      (faults place pieces).map (Diagnostic.down count) := by
  induction pieces generalizing place with
  | nil => rfl
  | cons piece others inductionHypothesis =>
      rw [faults, faults, List.map_append, ← inductionHypothesis,
        Position.down_right]
      refine congrArg (· ++ _) ?_
      cases piece with
      | escape escaped =>
          simp only [fault?]
          split <;> rfl
      | plain character =>
          simp only [fault?]
          split <;> rfl

theorem Token.faults_down (count : Nat) (token : Token) :
    (token.down count).faults =
      token.faults.map (Diagnostic.down count) := by
  by_cases isString : token.kind = .string
  · have movedString : (token.down count).kind = .string := isString
    rw [faults_of_string isString, faults_of_string movedString,
      List.map_append, ← StringPiece.faults_down]
    refine congrArg _ ?_
    by_cases closed : token.IsClosed
    · rw [if_pos closed, if_pos (show (token.down count).IsClosed from closed)]
      rfl
    · rw [if_neg closed,
        if_neg (show ¬(token.down count).IsClosed from closed)]
      rfl
  by_cases isUnrecognized : token.kind = .unrecognized
  · have movedUnrecognized : (token.down count).kind = .unrecognized :=
      isUnrecognized
    rw [faults_of_unrecognized isUnrecognized,
      faults_of_unrecognized movedUnrecognized, List.map_map]
    rfl
  · rw [faults_eq_nil isString isUnrecognized]
    exact faults_eq_nil isString isUnrecognized

/-! ## Cutting in front of a line break -/

/-- A text that begins with a line break, if it is not empty. -/
def Text.IsNextLine (behind : List Char) : Prop :=
  ∀ next ∈ behind.head?, isLineBreak next = true

theorem Text.isNextLine_cons {next : Char}
    (isBreak : Text.isLineBreak next = true) (rest : List Char) :
    IsNextLine (next :: rest) := by
  rintro other ⟨⟩
  exact isBreak

/-- In front of other text the same lexeme is cut, and the text is left over. -/
structure Lexeme.SameBefore (behind : List Char) (first second : Lexeme) :
    Prop where
  kind_eq : first.kind = second.kind
  characters_eq : first.characters = second.characters
  rest_eq : first.rest = second.rest ++ behind

section

variable {behind : List Char} (nextLine : Text.IsNextLine behind)

include nextLine

/-- A string ends in front of a line break. -/
theorem StringBody.read_nextLine (position : Position) :
    (read position behind).characters = [] ∧
      (read position behind).rest = behind := by
  cases behind with
  | nil => exact ⟨rfl, rfl⟩
  | cons next behind =>
      have isBreak := nextLine next rfl
      rw [read]
      · simp [isBreak]
      · rintro rfl
        exact absurd isBreak (by decide)
      · rintro escaped rest rfl
        exact absurd isBreak (by decide)

/-- A string is read to the same end in front of a line break, wherever it stands. -/
theorem StringBody.read_before (position other : Position) (text : List Char) :
    (read other (text ++ behind)).characters =
        (read position text).characters ∧
      (read other (text ++ behind)).rest =
        (read position text).rest ++ behind := by
  fun_induction read position text generalizing other with
  | case1 => exact read_nextLine nextLine other
  | case2 => exact ⟨rfl, rfl⟩
  | case3 position escaped rest isBreak => simp [read, isBreak]
  | case4 position escaped rest notBreak body inductionHypothesis =>
      obtain ⟨characters, rests⟩ := inductionHypothesis
        (other.right (1 + Text.unitWidth escaped))
      simp [read, notBreak, characters, rests, body]
  | case5 position character rest notQuote notEscape isBreak =>
      exact read_nextLine (Text.isNextLine_cons isBreak (rest ++ behind)) other
  | case6 position character rest notQuote notEscape notBreak body
      inductionHypothesis =>
      obtain ⟨characters, rests⟩ :=
        inductionHypothesis (other.right (Text.unitWidth character))
      by_cases isBackslash : character = '\\'
      · subst isBackslash
        cases rest with
        | cons next rest => exact absurd rfl (notEscape next rest rfl)
        | nil =>
            cases behind with
            | nil => exact ⟨rfl, rfl⟩
            | cons next behind => simp [body, read, nextLine next rfl]
      · simp [read, isBackslash, notBreak, characters, rests, body]

/-- A run of characters ends in front of a line break if no line break belongs to
it. -/
theorem Text.IsNextLine.run_append {isPart : Char → Bool}
    (stops : ∀ next, Text.isLineBreak next = true → isPart next = false)
    (text : List Char) :
    (text ++ behind).takeWhile isPart = text.takeWhile isPart ∧
      (text ++ behind).dropWhile isPart = text.dropWhile isPart ++ behind := by
  induction text with
  | nil =>
      cases behind with
      | nil => exact ⟨rfl, rfl⟩
      | cons next behind => simp [stops next (nextLine next rfl)]
  | cons part others inductionHypothesis =>
      by_cases inside : isPart part = true
      · simp [inside, inductionHypothesis]
      · simp [inside]

theorem Lexeme.cutRun_before (kind : List Char → TokenKind)
    {isPart : Char → Bool}
    (stops : ∀ next, Text.isLineBreak next = true → isPart next = false)
    (character : Char) (rest : List Char) :
    SameBefore behind (cutRun kind isPart character (rest ++ behind))
      (cutRun kind isPart character rest) := by
  obtain ⟨taken, dropped⟩ := nextLine.run_append stops rest
  refine ⟨?_, ?_, dropped⟩
  · rw [cutRun, taken, cutRun]
  · rw [cutRun, taken, cutRun]

theorem Lexeme.cutString_before (position other : Position)
    (rest : List Char) :
    SameBefore behind (cutString other (rest ++ behind))
      (cutString position rest) := by
  obtain ⟨characters, rests⟩ := StringBody.read_before nextLine
    (position.right 1) (other.right 1) rest
  exact ⟨rfl, congrArg ('"' :: ·) characters, rests⟩

/-- In front of a line break a token is cut as at the end of a text, wherever it
stands. -/
theorem Lexeme.cut_before (position other : Position) (character : Char)
    (rest : List Char) :
    SameBefore behind (cut other character (rest ++ behind))
      (cut position character rest) := by
  have sameHead : (rest ++ behind).head? = some '/' ↔
      rest.head? = some '/' := by
    cases rest with
    | cons next others => rfl
    | nil =>
        refine ⟨fun isSlash => ?_, nofun⟩
        exact absurd (nextLine '/' isSlash) (by decide)
  have notPart (next : Char) (isBreak : Text.isLineBreak next = true) :
      isWordPart next = false := by
    by_contra isPart
    rw [Bool.not_eq_false] at isPart
    rw [isLineBreak_of_isWordPart isPart] at isBreak
    contradiction
  have notDigit (next : Char) (isBreak : Text.isLineBreak next = true) :
      next.isDigit = false := by
    have outside := notPart next isBreak
    rw [isWordPart, Bool.or_eq_false_iff] at outside
    exact outside.2
  cases mark : punctuationKind? character with
  | some kind =>
      simp only [cut, mark]
      exact ⟨rfl, rfl, rfl⟩
  | none =>
      simp only [cut, mark, sameHead]
      split_ifs
      · exact cutRun_before nextLine _ (fun next isBreak => by simp [isBreak])
          character rest
      · exact cutString_before nextLine position other rest
      · exact cutRun_before nextLine _ notDigit character rest
      · exact cutRun_before nextLine _ notPart character rest
      · exact ⟨rfl, rfl, rfl⟩

end

theorem Lexeme.SameBefore.toToken_eq {behind : List Char}
    {first second : Lexeme} (same : SameBefore behind first second)
    (count : Nat) (position : Position) :
    first.toToken (position.down count) =
      (second.toToken position).down count := by
  rw [toToken, same.kind_eq, same.characters_eq]
  rfl

/-- Walking over a text is walking over its first token and over the rest. -/
theorem Lexeme.advance_cut {character : Char} (begins : BeginsToken character)
    (position : Position) (rest : List Char) :
    position.advance (character :: rest) =
      (position.right
        (Text.units (cut position character rest).characters)).advance
          (cut position character rest).rest := by
  have oneLine := oneLine_cut begins position rest
  rw [← Position.advance_eq_right oneLine, ← Position.advance_append,
    cut_append]
  intro ends
  have isReturn := oneLine '\r' (List.mem_of_getLast? ends)
  exact absurd isReturn (by decide)

/-! ## Scanning in front of a line break -/

/-- In front of a line break a text is scanned to its own tokens, and the line break
and what stands behind it to theirs.  The line where the text begins only shows in the
places. -/
theorem Scan.tokens_scanFrom_append (count : Nat) (position : Position)
    {first behind : List Char} (nextLine : Text.IsNextLine behind)
    (whole : first.getLast? = some '\r' → behind.head? ≠ some '\n') :
    (scanFrom (position.down count) (first ++ behind)).tokens =
      (scanFrom position first).tokens.map (Token.down count) ++
        (scanFrom ((position.advance first).down count) behind).tokens := by
  fun_induction scanFrom position first with
  | case1 position => rfl
  | case2 position rest inductionHypothesis =>
      rw [List.cons_append, List.cons_append, scanFrom, Position.advance,
        ← Position.down_nextLine]
      exact inductionHypothesis fun ends =>
        whole (by simp [List.getLast?_cons, ends])
  | case3 position character rest notPair isBreak inductionHypothesis =>
      have alone := Text.alone_append notPair whole
      rw [List.cons_append, scanFrom_of_isLineBreak isBreak _ alone,
        ← Position.down_nextLine, Position.advance, if_pos isBreak]
      · exact inductionHypothesis fun ends =>
          whole (by simp [List.getLast?_cons, ends])
      · exact notPair
  | case4 position character rest notPair notBreak isBlank
      inductionHypothesis =>
      have width : Text.unitWidth character = 1 := by
        rcases isBlank with rfl | rfl <;> decide
      rw [List.cons_append, scanFrom_of_blank isBlank, ← Position.down_right,
        Position.advance_of_not_isLineBreak (Bool.eq_false_iff.mpr notBreak),
        width]
      exact inductionHypothesis fun ends =>
        whole (by simp [List.getLast?_cons, ends])
  | case5 position character rest notPair notBreak notBlank lexeme finish
      token others inductionHypothesis =>
      have begins : BeginsToken character :=
        ⟨Bool.eq_false_iff.mpr notBreak, notBlank⟩
      have same := Lexeme.cut_before nextLine position (position.down count)
        character rest
      have passed := Lexeme.advance_cut begins position rest
      have behindEnds : lexeme.rest.getLast? = some '\r' →
          behind.head? ≠ some '\n' := by
        intro ends
        apply whole
        rw [← Lexeme.cut_append position character rest, List.getLast?_append,
          ends, Option.some_or]
      rw [List.cons_append, scanFrom_of_begins begins, passed]
      dsimp only
      rw [same.toToken_eq, same.characters_eq, same.rest_eq,
        ← Position.down_right, inductionHypothesis behindEnds]
      rfl

theorem Scan.tokens_scanFrom_down (count : Nat) (position : Position)
    (text : List Char) :
    (scanFrom (position.down count) text).tokens =
      (scanFrom position text).tokens.map (Token.down count) := by
  have alone := @tokens_scanFrom_append count position text [] nofun nofun
  simpa [scanFrom] using alone

/-- A text is scanned up to a line break, and then from there. -/
theorem Scan.tokens_ofText_append {text : String} {first behind : List Char}
    (split : text.toList = first ++ behind) (nextLine : Text.IsNextLine behind)
    (whole : first.getLast? = some '\r' → behind.head? ≠ some '\n') :
    (ofText text).tokens =
      (scanFrom Position.origin first).tokens ++
        (scanFrom (Position.origin.advance first) behind).tokens := by
  have parts := tokens_scanFrom_append 0 Position.origin nextLine whole
  simp only [Position.down_zero, funext Token.down_zero, List.map_id']
    at parts
  rw [ofText, split, parts]

/-- A line below some others is scanned like the first line of a text. -/
theorem Scan.tokens_nextLine (first : List Char) (second : String) :
    (scanFrom (Position.origin.advance first).nextLine second.toList).tokens =
      (ofText second).tokens.map (Token.down (Text.breakCount first + 1)) := by
  have below : (Position.origin.advance first).nextLine =
      Position.origin.down (Text.breakCount first + 1) := by
    simp only [Position.nextLine, Position.down, Position.origin,
      Position.line_advance, Nat.zero_add]
  rw [below, tokens_scanFrom_down, ofText]

theorem Scan.tokens_joined {first : String}
    (whole : first.toList.getLast? ≠ some '\r') (second : String) :
    (ofText (first ++ "\n" ++ second)).tokens =
      (ofText first).tokens ++ (ofText second).tokens.map
        (Token.down (Text.breakCount first.toList + 1)) := by
  have text : (first ++ "\n" ++ second).toList =
      first.toList ++ '\n' :: second.toList := by
    simp
  have feed := @scanFrom_of_isLineBreak '\n' rfl
    (Position.origin.advance first.toList) second.toList
    fun isReturn => absurd isReturn (by decide)
  rw [tokens_ofText_append text (Text.isNextLine_cons rfl _)
    fun ends => absurd ends whole, feed, tokens_nextLine]
  rfl

/-- Behind a carriage return the line feed begins no line of its own. -/
theorem Scan.tokens_joined_of_return {first : String} {front : List Char}
    (split : first.toList = front ++ ['\r']) (second : String) :
    (ofText (first ++ "\n" ++ second)).tokens =
      (ofText first).tokens ++ (ofText second).tokens.map
        (Token.down (Text.breakCount front + 1)) := by
  have text : (first ++ "\n" ++ second).toList =
      front ++ '\r' :: '\n' :: second.toList := by
    simp [split]
  have blank : (scanFrom (Position.origin.advance front) ['\r']).tokens =
      [] := by
    rw [scanFrom_of_isLineBreak rfl _ (by simp), scanFrom]
  have alone := tokens_ofText_append split (Text.isNextLine_cons rfl _)
    (by simp)
  rw [alone, blank, List.append_nil,
    tokens_ofText_append text (Text.isNextLine_cons rfl _) (by simp), scanFrom,
    tokens_nextLine]

/-- Reports go with their tokens. -/
theorem Scan.diagnostics_eq_append_down {text first second : String}
    {count : Nat} (tokens : (ofText text).tokens =
      (ofText first).tokens ++
        (ofText second).tokens.map (Token.down count)) :
    (ofText text).diagnostics =
      (ofText first).diagnostics ++
        (ofText second).diagnostics.map (Diagnostic.down count) := by
  rw [ofText, diagnostics_scanFrom, ← ofText, tokens, List.flatMap_append,
    ofText, ofText, diagnostics_scanFrom, diagnostics_scanFrom,
    List.flatMap_map, List.map_flatMap]
  simp only [Token.faults_down]

/-- However a text ends, a text below it is scanned for itself. -/
theorem Scan.exists_joined (first second : String) :
    ∃ count, (ofText (first ++ "\n" ++ second)).tokens =
        (ofText first).tokens ++
          (ofText second).tokens.map (Token.down count) ∧
      (ofText (first ++ "\n" ++ second)).diagnostics =
        (ofText first).diagnostics ++
          (ofText second).diagnostics.map (Diagnostic.down count) := by
  by_cases ends : first.toList.getLast? = some '\r'
  · obtain ⟨front, split⟩ := List.getLast?_eq_some_iff.mp ends
    have tokens := tokens_joined_of_return split second
    exact ⟨_, tokens, diagnostics_eq_append_down tokens⟩
  · have tokens := tokens_joined ends second
    exact ⟨_, tokens, diagnostics_eq_append_down tokens⟩

/-- Two texts with a line feed between them are scanned each for itself: the tokens
and the reports of the second one stand behind those of the first, as many lines
further down as the first has line breaks, and one for the line feed. -/
theorem Scan.ofText_joined {first : String}
    (whole : first.toList.getLast? ≠ some '\r') (second : String) :
    (ofText (first ++ "\n" ++ second)).tokens =
        (ofText first).tokens ++ (ofText second).tokens.map
          (Token.down (Text.breakCount first.toList + 1)) ∧
      (ofText (first ++ "\n" ++ second)).diagnostics =
        (ofText first).diagnostics ++ (ofText second).diagnostics.map
          (Diagnostic.down (Text.breakCount first.toList + 1)) := by
  have tokens := tokens_joined whole second
  exact ⟨tokens, diagnostics_eq_append_down tokens⟩

/-- A string that ends in a backslash, a lone slash and break characters of every
kind stand above a comment and a string. -/
theorem Scan.ofText_joined_broken :
    let first := "a\r\n/\r\"b\\"
    let second := "# c\r\"d"
    first.toList.getLast? ≠ some '\r' ∧
      (ofText (first ++ "\n" ++ second)).tokens =
        (ofText first).tokens ++
          (ofText second).tokens.map (Token.down 3) ∧
      (ofText (first ++ "\n" ++ second)).diagnostics =
        (ofText first).diagnostics ++
          (ofText second).diagnostics.map (Diagnostic.down 3) := by
  refine ⟨by decide, ?_⟩
  exact @ofText_joined "a\r\n/\r\"b\\" (by decide) "# c\r\"d"

end WorkflowLang
