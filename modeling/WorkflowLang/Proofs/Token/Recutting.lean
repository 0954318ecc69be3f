import WorkflowLang.Token.Scan
import Mathlib.Data.List.TakeWhile

/-!
# Cutting a token again

A token that was cut without a problem is cut again from its own text, as long
as what follows cannot belong to it (`Lexeme.cut_again`).  Comments go on to the
end of their line; all other tokens end before any character that is not part
of a word.  What exactly a token must not be followed by depends on its kind
(`TokenKind.StopsBefore`).
-/

namespace WorkflowLang

/-- A token of a kind ends before the rest of a text. -/
def TokenKind.EndsBefore (kind : TokenKind) (rest : List Char) : Prop :=
  ∀ next ∈ rest.head?,
    if kind = .comment then Text.isLineBreak next = true
    else isWordPart next = false

theorem isLineBreak_of_isWordPart {character : Char}
    (isPart : isWordPart character = true) :
    Text.isLineBreak character = false := by
  by_contra isBreak
  rw [Bool.not_eq_false, Text.isLineBreak, Bool.or_eq_true, beq_iff_eq,
    beq_iff_eq] at isBreak
  rcases isBreak with rfl | rfl
  · exact absurd isPart (by decide)
  · exact absurd isPart (by decide)

namespace TokenKind

theorem endsBefore_of_ne_comment {kind : TokenKind} (notComment : kind ≠ .comment)
    {rest : List Char} (stops : ∀ next ∈ rest.head?, isWordPart next = false) :
    kind.EndsBefore rest := by
  intro next member
  rw [if_neg notComment]
  exact stops next member

/-- Every token ends with its line. -/
theorem endsBefore_of_isLineBreak (kind : TokenKind) {rest : List Char}
    (stops : ∀ next ∈ rest.head?, Text.isLineBreak next = true) :
    kind.EndsBefore rest := by
  intro next member
  split
  · exact stops next member
  · by_contra isPart
    rw [Bool.not_eq_false] at isPart
    have notBreak := isLineBreak_of_isWordPart isPart
    rw [stops next member] at notBreak
    contradiction

end TokenKind

namespace TokenKind

/-- A token of a kind would take a character in. -/
def goesOn (kind : TokenKind) (next : Char) : Bool :=
  match kind with
  | .comment => !Text.isLineBreak next
  | .integer => next.isDigit
  | .string | .equal | .comma | .leftBrace | .rightBrace | .leftBracket
  | .rightBracket | .missing | .unrecognized => false
  | _ => isWordPart next

/-- A token of a kind takes nothing in of the rest of a text. -/
def StopsBefore (kind : TokenKind) (rest : List Char) : Prop :=
  ∀ next ∈ rest.head?, kind.goesOn next = false

theorem EndsBefore.stopsBefore {kind : TokenKind} {rest : List Char}
    (ends : kind.EndsBefore rest) : kind.StopsBefore rest := by
  intro next member
  have stops := ends next member
  cases kind with
  | comment => simpa [goesOn] using stops
  | integer => exact (Bool.or_eq_false_iff.mp stops).2
  | _ => first | rfl | exact stops

theorem StopsBefore.congr {kind : TokenKind} {first second : List Char}
    (stops : kind.StopsBefore first) (same : second.head? = first.head?) :
    kind.StopsBefore second :=
  fun next member => stops next (same ▸ member)

end TokenKind

/-- Whether an escape is faultless does not depend on its place. -/
theorem escapeDiagnostics_eq_nil {position : Position} {escaped : Char}
    (clean : escapeDiagnostics position escaped = []) (other : Position) :
    escapeDiagnostics other escaped = [] := by
  unfold escapeDiagnostics at clean ⊢
  split at clean
  · rename_i escapable
    rw [if_pos escapable]
  · simp at clean

theorem controlDiagnostics_eq_nil {position : Position} {character : Char}
    (clean : controlDiagnostics position character = []) (other : Position) :
    controlDiagnostics other character = [] := by
  unfold controlDiagnostics at clean ⊢
  split at clean
  · simp at clean
  · rename_i notControl
    rw [if_neg notControl]

namespace StringBody

/-- A faultless closed string is read to the same end before any text. -/
theorem read_again {position : Position} {text : List Char}
    (clean : (read position text).diagnostics = [])
    (closed : (read position text).isClosed = true)
    (other : Position) (behind : List Char) :
    read other ((read position text).characters ++ behind) =
      ⟨(read position text).characters, behind, [], true⟩ := by
  fun_induction read position text generalizing other with
  | case1 => simp at closed
  | case2 position rest => rfl
  | case3 position escaped rest isBreak => simp at closed
  | case4 position escaped rest notBreak body inductionHypothesis =>
      simp only [List.append_eq_nil_iff] at clean
      have unreported : ∀ place, escapeDiagnostics place escaped = [] :=
        escapeDiagnostics_eq_nil clean.1
      have again : ∀ place, read place (body.characters ++ behind) =
          ⟨body.characters, behind, [], true⟩ :=
        inductionHypothesis clean.2 closed
      simp [read, notBreak, again, unreported]
  | case5 position character rest notQuote notEscape isBreak =>
      simp at closed
  | case6 position character rest notQuote notEscape notBreak body
      inductionHypothesis =>
      simp only [List.append_eq_nil_iff] at clean
      have unreported : ∀ place, controlDiagnostics place character = [] :=
        controlDiagnostics_eq_nil clean.1
      have notBackslash : character ≠ '\\' := by
        rintro rfl
        cases rest with
        | nil => simp [body, read] at closed
        | cons escaped rest => exact notEscape escaped rest rfl rfl
      have again : ∀ place, read place (body.characters ++ behind) =
          ⟨body.characters, behind, [], true⟩ :=
        inductionHypothesis clean.2 closed
      simp [read, notBreak, again, unreported, notBackslash]

end StringBody

namespace Lexeme

/-- A run is cut to the same end before anything that is no part of it. -/
theorem cutRun_again (kind : List Char → TokenKind) (isPart : Char → Bool)
    (character : Char) (rest : List Char) {behind : List Char}
    (stops : ∀ next ∈ behind.head?, isPart next = false) :
    cutRun kind isPart character (rest.takeWhile isPart ++ behind) =
      ⟨kind (character :: rest.takeWhile isPart),
        character :: rest.takeWhile isPart, behind, []⟩ := by
  have inside : ∀ part ∈ rest.takeWhile isPart, isPart part = true :=
    fun part member => List.mem_takeWhile_imp member
  have nothing : behind.takeWhile isPart = [] := by
    cases behind with
    | nil => rfl
    | cons next behind => simp [stops next rfl]
  have everything : behind.dropWhile isPart = behind := by
    cases behind with
    | nil => rfl
    | cons next behind => simp [stops next rfl]
  simp [cutRun, List.takeWhile_append_of_pos inside,
    List.dropWhile_append_of_pos inside, nothing, everything]

end Lexeme

/-- The kinds of punctuation marks. -/
def TokenKind.marks : List TokenKind :=
  [.equal, .comma, .leftBrace, .rightBrace, .leftBracket, .rightBracket]

/-- The kinds of faultless tokens other than punctuation marks. -/
def TokenKind.unmarked : List TokenKind :=
  [.comment, .string, .integer, .identifier] ++ TokenKind.keywords

theorem TokenKind.ofWord_mem (word : String) :
    TokenKind.ofWord word ∈ .identifier :: TokenKind.keywords := by
  unfold TokenKind.ofWord
  cases found : TokenKind.keywords.find?
      fun keyword => keyword.description == word with
  | none => exact List.mem_cons_self
  | some keyword =>
      exact List.mem_cons_of_mem _ (List.mem_of_find?_eq_some found)

namespace Lexeme

/-- A faultless string literal is cut again before any text. -/
theorem cutString_again {position : Position} {rest : List Char}
    (clean : (cutString position rest).diagnostics = []) (other : Position)
    (behind : List Char) :
    cutString other
        ((StringBody.read (position.right 1) rest).characters ++ behind) =
      ⟨.string,
        '"' :: (StringBody.read (position.right 1) rest).characters, behind,
        []⟩ := by
  unfold cutString at clean
  simp only [List.append_eq_nil_iff] at clean
  obtain ⟨faultless, terminated⟩ := clean
  have closed : (StringBody.read (position.right 1) rest).isClosed = true := by
    by_contra notClosed
    simp [notClosed] at terminated
  simp [cutString, StringBody.read_again faultless closed]

theorem cut_of_mark {character : Char} {kind : TokenKind}
    (mark : punctuationKind? character = some kind) (position : Position)
    (rest : List Char) :
    cut position character rest = ⟨kind, [character], rest, []⟩ := by
  simp [cut, mark]

theorem cut_of_comment {character : Char} {rest : List Char}
    (isComment : character = '#' ∨
      (character = '/' ∧ rest.head? = some '/')) (position : Position) :
    cut position character rest =
      cutRun (fun _ => .comment) (fun next => !Text.isLineBreak next)
        character rest := by
  have noMark : punctuationKind? character = none := by
    rcases isComment with rfl | ⟨rfl, _⟩ <;> rfl
  simp [cut, noMark, isComment]

theorem cut_of_quote (position : Position) (rest : List Char) :
    cut position '"' rest = cutString position rest := by
  simp [cut, punctuationKind?]

theorem plain_of_isWordPart {character : Char}
    (isPart : isWordPart character = true) :
    punctuationKind? character = none ∧ character ≠ '#' ∧ character ≠ '/' ∧
      character ≠ '"' := by
  refine ⟨?_, ?_, ?_, ?_⟩
  · unfold punctuationKind?
    split
    all_goals first
      | rfl
      | exact absurd isPart (by decide)
  all_goals
    rintro rfl
    exact absurd isPart (by decide)

theorem cut_of_isDigit {character : Char}
    (isDigit : character.isDigit = true) (position : Position)
    (rest : List Char) :
    cut position character rest =
      cutRun (fun _ => .integer) Char.isDigit character rest := by
  obtain ⟨noMark, notHash, notSlash, notQuote⟩ :=
    plain_of_isWordPart (show isWordPart character = true by
      simp [isWordPart, isDigit])
  simp [cut, noMark, notHash, notSlash, notQuote, isDigit]

theorem isDigit_eq_false_of_isWordStart {character : Char}
    (isStart : isWordStart character = true) : character.isDigit = false := by
  rw [isWordStart, Bool.or_eq_true] at isStart
  rcases isStart with isUnderscore | isLetter
  · rw [beq_iff_eq.mp isUnderscore]
    decide
  · by_contra isDigit
    rw [Bool.not_eq_false] at isDigit
    have atMost := of_decide_eq_true (Bool.and_eq_true_iff.mp isDigit).2
    rcases Bool.or_eq_true_iff.mp isLetter with isUpper | isLower
    · have atLeast := (of_decide_eq_true isUpper).1
      exact absurd (UInt32.le_trans atLeast atMost) (by decide)
    · have atLeast := of_decide_eq_true (Bool.and_eq_true_iff.mp isLower).1
      exact absurd (UInt32.le_trans atLeast atMost) (by decide)

theorem cut_of_isWordStart {character : Char}
    (isStart : isWordStart character = true) (position : Position)
    (rest : List Char) :
    cut position character rest =
      cutRun (fun word => .ofWord (String.ofList word)) isWordPart character
        rest := by
  obtain ⟨noMark, notHash, notSlash, notQuote⟩ :=
    plain_of_isWordPart (show isWordPart character = true by
      simp [isWordPart, isStart])
  simp [cut, noMark, notHash, notSlash, notQuote, isStart,
    isDigit_eq_false_of_isWordStart isStart]

/-- The tokens there are: marks, comments, strings, numbers and words; any other
character is reported. -/
theorem cut_cases (character : Char) (rest : List Char) :
    (∃ kind, punctuationKind? character = some kind) ∨
      (character = '#' ∨ (character = '/' ∧ rest.head? = some '/')) ∨
      character = '"' ∨ character.isDigit = true ∨
      isWordStart character = true ∨
      ∀ position, (cut position character rest).diagnostics ≠ [] := by
  cases mark : punctuationKind? character with
  | some kind => exact Or.inl ⟨kind, rfl⟩
  | none =>
      by_cases isComment :
          character = '#' ∨ (character = '/' ∧ rest.head? = some '/')
      · exact Or.inr (Or.inl isComment)
      by_cases isQuote : character = '"'
      · exact Or.inr (Or.inr (Or.inl isQuote))
      by_cases isDigit : character.isDigit = true
      · exact Or.inr (Or.inr (Or.inr (Or.inl isDigit)))
      by_cases isStart : isWordStart character = true
      · exact Or.inr (Or.inr (Or.inr (Or.inr (Or.inl isStart))))
      refine Or.inr (Or.inr (Or.inr (Or.inr (Or.inr ?_))))
      intro position
      simp [cut, mark, isComment, isQuote, isDigit, isStart]

theorem kind_cut_of_clean {position : Position} {character : Char}
    {rest : List Char}
    (clean : (cut position character rest).diagnostics = []) :
    punctuationKind? character = some (cut position character rest).kind ∨
      (cut position character rest).kind ∈ TokenKind.unmarked := by
  rcases cut_cases character rest with
    ⟨kind, mark⟩ | isComment | rfl | isDigit | isStart | faulty
  · rw [cut_of_mark mark]
    exact Or.inl mark
  · rw [cut_of_comment isComment]
    exact Or.inr (show TokenKind.comment ∈ TokenKind.unmarked by decide)
  · rw [cut_of_quote]
    exact Or.inr (show TokenKind.string ∈ TokenKind.unmarked by decide)
  · rw [cut_of_isDigit isDigit]
    exact Or.inr (show TokenKind.integer ∈ TokenKind.unmarked by decide)
  · rw [cut_of_isWordStart isStart]
    have isWord := TokenKind.ofWord_mem
      (String.ofList (character :: rest.takeWhile isWordPart))
    rcases List.mem_cons.mp isWord with isIdentifier | isKeyword
    · refine Or.inr ?_
      rw [cutRun, isIdentifier]
      exact List.mem_append_left _ (by simp)
    · exact Or.inr (List.mem_append_right _ isKeyword)
  · exact (faulty position clean).elim

theorem goesOn_mark {character : Char} {kind : TokenKind}
    (mark : punctuationKind? character = some kind) (next : Char) :
    kind.goesOn next = false := by
  unfold punctuationKind? at mark
  split at mark
  all_goals first
    | obtain rfl := Option.some.inj mark
      rfl
    | contradiction

theorem goesOn_ofWord (word : String) (next : Char) :
    (TokenKind.ofWord word).goesOn next = isWordPart next := by
  have isWord := TokenKind.ofWord_mem word
  revert isWord
  cases TokenKind.ofWord word <;> simp [TokenKind.goesOn,
    TokenKind.keywords, TokenKind.statementKeywords,
    TokenKind.propertyKeywords]

/-- A run stops before what it leaves. -/
theorem head?_dropWhile_eq_false (isPart : Char → Bool) (rest : List Char) :
    ∀ next ∈ (rest.dropWhile isPart).head?, isPart next = false := by
  intro next member
  have stops := List.head?_dropWhile_not isPart rest
  rw [Option.mem_def.mp member] at stops
  exact stops

/-- A faultless token stops before the rest of its text. -/
theorem stopsBefore_rest_cut {position : Position} {character : Char}
    {rest : List Char}
    (clean : (cut position character rest).diagnostics = []) :
    (cut position character rest).kind.StopsBefore
      (cut position character rest).rest := by
  rcases cut_cases character rest with
    ⟨kind, mark⟩ | isComment | rfl | isDigit | isStart | faulty
  · rw [cut_of_mark mark]
    exact fun next _ => goesOn_mark mark next
  · rw [cut_of_comment isComment]
    exact head?_dropWhile_eq_false _ rest
  · rw [cut_of_quote]
    exact fun _ _ => rfl
  · rw [cut_of_isDigit isDigit]
    exact head?_dropWhile_eq_false _ rest
  · rw [cut_of_isWordStart isStart]
    intro next member
    exact (goesOn_ofWord _ next).trans
      (head?_dropWhile_eq_false _ rest next member)
  · exact (faulty position clean).elim

/-- A faultless token is cut again from its own characters before everything that
it does not take in. -/
theorem cut_again_of_stopsBefore {position : Position} {character : Char}
    {rest : List Char}
    (clean : (cut position character rest).diagnostics = []) :
    ∃ others, (cut position character rest).characters = character :: others ∧
      ∀ (other : Position) (behind : List Char),
        (cut position character rest).kind.StopsBefore behind →
          cut other character (others ++ behind) =
            ⟨(cut position character rest).kind, character :: others, behind,
              []⟩ := by
  rcases cut_cases character rest with
    ⟨kind, mark⟩ | isComment | rfl | isDigit | isStart | faulty
  · rw [cut_of_mark mark]
    exact ⟨[], rfl, fun other behind _ => cut_of_mark mark other behind⟩
  · rw [cut_of_comment isComment]
    refine ⟨rest.takeWhile fun next => !Text.isLineBreak next, rfl, ?_⟩
    intro other behind stops
    have stillComment : character = '#' ∨ (character = '/' ∧
        (rest.takeWhile (fun next => !Text.isLineBreak next) ++
          behind).head? = some '/') := by
      rcases isComment with isHash | ⟨isSlash, next⟩
      · exact Or.inl isHash
      · obtain ⟨others, rfl⟩ := List.head?_eq_some_iff.mp next
        exact Or.inr ⟨isSlash, rfl⟩
    rw [cut_of_comment stillComment]
    exact cutRun_again _ _ character rest stops
  · rw [cut_of_quote] at clean ⊢
    refine ⟨(StringBody.read (position.right 1) rest).characters, rfl, ?_⟩
    intro other behind _
    rw [cut_of_quote]
    exact cutString_again clean other behind
  · rw [cut_of_isDigit isDigit]
    refine ⟨rest.takeWhile Char.isDigit, rfl, ?_⟩
    intro other behind stops
    rw [cut_of_isDigit isDigit]
    exact cutRun_again _ _ character rest stops
  · rw [cut_of_isWordStart isStart]
    refine ⟨rest.takeWhile isWordPart, rfl, ?_⟩
    intro other behind stops
    rw [cut_of_isWordStart isStart]
    refine cutRun_again _ _ character rest fun next member => ?_
    exact (goesOn_ofWord _ next).symm.trans (stops next member)
  · exact (faulty position clean).elim

/-- A faultless token is cut again from its own characters. -/
theorem cut_again {position : Position} {character : Char} {rest : List Char}
    (clean : (cut position character rest).diagnostics = []) :
    ∃ others, (cut position character rest).characters = character :: others ∧
      ∀ (other : Position) (behind : List Char),
        (cut position character rest).kind.EndsBefore behind →
          cut other character (others ++ behind) =
            ⟨(cut position character rest).kind, character :: others, behind,
              []⟩ := by
  obtain ⟨others, characters, again⟩ := cut_again_of_stopsBefore clean
  exact ⟨others, characters, fun other behind ends =>
    again other behind ends.stopsBefore⟩

end Lexeme

end WorkflowLang
