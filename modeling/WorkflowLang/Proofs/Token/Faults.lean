import WorkflowLang.Proofs.Token.Replacing
import WorkflowLang.Proofs.Token.Spacing

/-!
# What scanning reports

A string is read from the left in pieces: a backslash takes the next character with
it, and any other character stands for itself.  Which pieces there are is known from
the string alone, so what scanning reports is known from the tokens: an unrecognized
character is reported as such, a string for its pieces and, if none of them is a
closing quote, for not ending (`Scan.reportsFaults`).
-/

namespace WorkflowLang

open Text (units unitWidth)

/-- A piece of a string. -/
inductive StringPiece where
  | escape (escaped : Char)
  | plain (character : Char)
  deriving DecidableEq, Inhabited, Repr

namespace StringPiece

/-- The pieces of the characters behind an opening quote. -/
def ofCharacters : List Char → List StringPiece
  | [] => []
  | '\\' :: escaped :: rest => .escape escaped :: ofCharacters rest
  | character :: rest => .plain character :: ofCharacters rest

def characters : StringPiece → List Char
  | .escape escaped => ['\\', escaped]
  | .plain character => [character]

/-- What is reported about a piece that begins at a place: the second character of an
escape that there is not, and a control character. -/
def fault? (place : Position) : StringPiece → Option Diagnostic
  | .escape escaped =>
      if escaped ∈ escapableCharacters then none
      else
        some ⟨.unsupportedEscape escaped,
          ⟨place.right 1, place.right (1 + unitWidth escaped)⟩⟩
  | .plain character =>
      if isControl character then
        some ⟨.unrecognizedCharacter character, ⟨place, place.right 1⟩⟩
      else none

/-- What is reported about pieces that follow each other from a place on. -/
def faults : Position → List StringPiece → List Diagnostic
  | _, [] => []
  | place, piece :: others =>
      (piece.fault? place).toList ++
        faults (place.right (units piece.characters)) others

/-- A piece that a string may hold between its quotes. -/
def IsSound : StringPiece → Prop
  | .escape escaped => escaped ∈ escapableCharacters
  | .plain character =>
      character ≠ '"' ∧ character ≠ '\\' ∧ isControl character = false

theorem ofCharacters_plain {character : Char} {rest : List Char}
    (notEscape : character = '\\' → rest = []) :
    ofCharacters (character :: rest) = .plain character :: ofCharacters rest := by
  rw [ofCharacters]
  rintro escaped others rfl rfl
  exact absurd (notEscape rfl) (List.cons_ne_nil _ _)

/-- A string is made of its pieces. -/
theorem flatMap_characters (string : List Char) :
    (ofCharacters string).flatMap characters = string := by
  fun_induction ofCharacters string with
  | case1 => rfl
  | case2 escaped rest inductionHypothesis =>
      rw [List.flatMap_cons, inductionHypothesis]
      rfl
  | case3 character rest notEscape inductionHypothesis =>
      rw [List.flatMap_cons, inductionHypothesis]
      rfl

/-- Sound pieces are read again. -/
theorem ofCharacters_flatMap {pieces : List StringPiece}
    (sound : ∀ piece ∈ pieces, piece.IsSound) (rest : List Char) :
    ofCharacters (pieces.flatMap characters ++ rest) =
      pieces ++ ofCharacters rest := by
  induction pieces with
  | nil => rfl
  | cons piece others inductionHypothesis =>
      obtain ⟨here, behind⟩ := List.forall_mem_cons.mp sound
      cases piece with
      | escape escaped =>
          exact congrArg _ (inductionHypothesis behind)
      | plain character =>
          refine (ofCharacters_plain fun isBackslash => ?_).trans
            (congrArg _ (inductionHypothesis behind))
          exact absurd isBackslash here.2.1

/-- A backslash that takes nothing with it is the last character. -/
theorem eq_nil_of_backslash {string : List Char}
    {front back : List StringPiece}
    (pieces : ofCharacters string = front ++ .plain '\\' :: back) :
    back = [] := by
  fun_induction ofCharacters string generalizing front with
  | case1 => simp at pieces
  | case2 escaped rest inductionHypothesis =>
      cases front with
      | nil => simp at pieces
      | cons _ front =>
          exact inductionHypothesis (List.cons.inj pieces).2
  | case3 character rest notEscape inductionHypothesis =>
      cases front with
      | nil =>
          obtain ⟨isBackslash, behind⟩ := List.cons.inj pieces
          cases rest with
          | nil => exact behind.symm
          | cons next rest =>
              exact absurd rfl (notEscape next rest (plain.inj isBackslash))
      | cons _ front =>
          exact inductionHypothesis (List.cons.inj pieces).2

theorem fault?_escape_eq_none {place : Position} {escaped : Char} :
    (escape escaped).fault? place = none ↔ escaped ∈ escapableCharacters := by
  simp [fault?]

theorem fault?_plain_eq_none {place : Position} {character : Char} :
    (plain character).fault? place = none ↔ isControl character = false := by
  simp [fault?]

theorem IsSound.fault?_eq_none {piece : StringPiece} (sound : piece.IsSound)
    (place : Position) : piece.fault? place = none := by
  cases piece with
  | escape escaped => exact fault?_escape_eq_none.mpr sound
  | plain character => exact fault?_plain_eq_none.mpr sound.2.2

theorem faults_append (place : Position) (first second : List StringPiece) :
    faults place (first ++ second) =
      faults place first ++
        faults (place.right (units (first.flatMap characters))) second := by
  induction first generalizing place with
  | nil => rfl
  | cons piece others inductionHypothesis =>
      rw [List.cons_append, faults, inductionHypothesis, faults,
        List.append_assoc, List.flatMap_cons, Text.units_append,
        Position.right_right]

theorem faults_eq_nil {pieces : List StringPiece}
    (sound : ∀ piece ∈ pieces, piece.IsSound) (place : Position) :
    faults place pieces = [] := by
  induction pieces generalizing place with
  | nil => rfl
  | cons piece others inductionHypothesis =>
      obtain ⟨here, behind⟩ := List.forall_mem_cons.mp sound
      rw [faults, here.fault?_eq_none, inductionHypothesis behind]
      rfl

/-- Pieces without a report are sound, unless there is a quote or a lone backslash
among them. -/
theorem isSound_of_faults {pieces : List StringPiece} {place : Position}
    (unreported : faults place pieces = [])
    (noQuote : .plain '"' ∉ pieces) (noBackslash : .plain '\\' ∉ pieces) :
    ∀ piece ∈ pieces, piece.IsSound := by
  induction pieces generalizing place with
  | nil => simp
  | cons piece others inductionHypothesis =>
      rw [faults, List.append_eq_nil_iff] at unreported
      rw [List.mem_cons, not_or] at noQuote noBackslash
      have behind :=
        inductionHypothesis unreported.2 noQuote.2 noBackslash.2
      refine List.forall_mem_cons.mpr ⟨?_, behind⟩
      have here : piece.fault? place = none := by
        simpa using unreported.1
      cases piece with
      | escape escaped => exact fault?_escape_eq_none.mp here
      | plain character =>
          refine ⟨?_, ?_, fault?_plain_eq_none.mp here⟩
          · rintro rfl
            exact noQuote.1 rfl
          · rintro rfl
            exact noBackslash.1 rfl

end StringPiece

namespace Token

/-- The pieces of a string behind its opening quote. -/
def pieces (token : Token) : List StringPiece :=
  StringPiece.ofCharacters token.text.toList.tail

/-- A closing quote stands for itself: an escaped quote closes nothing. -/
def IsClosed (token : Token) : Prop :=
  .plain '"' ∈ token.pieces

instance (token : Token) : Decidable token.IsClosed :=
  inferInstanceAs (Decidable (_ ∈ _))

/-- What is reported about a token. -/
def faults (token : Token) : List Diagnostic :=
  match token.kind with
  | .unrecognized =>
      token.text.toList.map fun character =>
        ⟨.unrecognizedCharacter character, token.span⟩
  | .string =>
      StringPiece.faults (token.span.start.right 1) token.pieces ++
        if token.IsClosed then [] else [⟨.unterminatedString, token.span⟩]
  | _ => []

/-- A string of sound pieces between two quotes. -/
def IsSoundString (token : Token) : Prop :=
  ∃ pieces : List StringPiece, (∀ piece ∈ pieces, piece.IsSound) ∧
    token.text.toList =
      '"' :: (pieces.flatMap StringPiece.characters ++ ['"'])

theorem faults_of_unrecognized {token : Token}
    (isUnrecognized : token.kind = .unrecognized) :
    token.faults = token.text.toList.map fun character =>
      ⟨.unrecognizedCharacter character, token.span⟩ := by
  rw [faults, isUnrecognized]

theorem faults_of_string {token : Token} (isString : token.kind = .string) :
    token.faults =
      StringPiece.faults (token.span.start.right 1) token.pieces ++
        if token.IsClosed then []
        else [⟨.unterminatedString, token.span⟩] := by
  rw [faults, isString]

theorem faults_eq_nil {token : Token} (notString : token.kind ≠ .string)
    (recognized : token.kind ≠ .unrecognized) : token.faults = [] := by
  unfold faults
  split
  · contradiction
  · contradiction
  · rfl

end Token

namespace StringBody

open StringPiece (ofCharacters)

theorem escapeDiagnostics_eq (position : Position) (escaped : Char) :
    escapeDiagnostics (position.right 1) escaped =
      ((StringPiece.escape escaped).fault? position).toList := by
  unfold escapeDiagnostics StringPiece.fault?
  by_cases supported : escaped ∈ escapableCharacters
  · simp [supported]
  · simp [supported, Position.right_right]

theorem controlDiagnostics_eq (position : Position) (character : Char) :
    controlDiagnostics position character =
      ((StringPiece.plain character).fault? position).toList := by
  unfold controlDiagnostics StringPiece.fault?
  by_cases control : isControl character = true <;> simp [control]

/-- Nothing is read behind a backslash that is no part of an escape. -/
theorem characters_read_of_notEscape {character : Char} {rest : List Char}
    (notEscape : ∀ escaped others, character = '\\' →
      rest = escaped :: others → False) (position : Position) :
    character = '\\' → (read position rest).characters = [] := by
  intro isBackslash
  cases rest with
  | nil => rfl
  | cons next others => exact absurd rfl (notEscape next others isBackslash)

/-- Reading reports the pieces of what is read. -/
theorem diagnostics_read (position : Position) (text : List Char) :
    (read position text).diagnostics =
      StringPiece.faults position
        (ofCharacters (read position text).characters) := by
  fun_induction read position text with
  | case1 => rfl
  | case2 => rfl
  | case3 => rfl
  | case4 position escaped rest notBreak body inductionHypothesis =>
      have width : units (StringPiece.escape escaped).characters =
          1 + unitWidth escaped := rfl
      rw [ofCharacters, StringPiece.faults, ← escapeDiagnostics_eq, width]
      exact congrArg _ inductionHypothesis
  | case5 => rfl
  | case6 position character rest notQuote notEscape notBreak body
      inductionHypothesis =>
      have width : units (StringPiece.plain character).characters =
          unitWidth character := rfl
      rw [StringPiece.ofCharacters_plain (characters_read_of_notEscape notEscape _),
        StringPiece.faults, ← controlDiagnostics_eq, width]
      exact congrArg _ inductionHypothesis

/-- Reading goes on to a quote that stands for itself. -/
theorem exists_pieces_read (position : Position) (text : List Char) :
    ∃ front, .plain '"' ∉ front ∧
      ofCharacters (read position text).characters =
        front ++ if (read position text).isClosed then [.plain '"'] else [] := by
  fun_induction read position text with
  | case1 => exact ⟨[], List.not_mem_nil, rfl⟩
  | case2 => exact ⟨[], List.not_mem_nil, rfl⟩
  | case3 => exact ⟨[.plain '\\'], by decide, rfl⟩
  | case4 position escaped rest notBreak body inductionHypothesis =>
      obtain ⟨front, noQuote, pieces⟩ := inductionHypothesis
      refine ⟨.escape escaped :: front, by simpa using noQuote, ?_⟩
      exact congrArg _ pieces
  | case5 => exact ⟨[], List.not_mem_nil, rfl⟩
  | case6 position character rest notQuote notEscape notBreak body
      inductionHypothesis =>
      obtain ⟨front, noQuote, pieces⟩ := inductionHypothesis
      refine ⟨.plain character :: front, ?_, ?_⟩
      · rw [List.mem_cons, not_or]
        refine ⟨fun isQuote => ?_, noQuote⟩
        exact notQuote (StringPiece.plain.inj isQuote).symm
      · refine (StringPiece.ofCharacters_plain ?_).trans (congrArg _ pieces)
        exact characters_read_of_notEscape notEscape _

end StringBody

namespace Lexeme

variable {position : Position} {character : Char} {rest : List Char}

theorem cut_of_kind_string
    (isString : (cut position character rest).kind = .string) :
    character = '"' ∧
      cut position character rest = cutString position rest := by
  obtain rfl : character = '"' := eq_quote_of_kind_cut isString
  exact ⟨rfl, cut_of_quote position rest⟩

theorem kind_of_mark {kind : TokenKind}
    (mark : punctuationKind? character = some kind) :
    kind ≠ .string ∧ kind ≠ .unrecognized := by
  unfold punctuationKind? at mark
  split at mark <;> cases mark <;> decide

theorem cut_of_kind_unrecognized
    (isUnrecognized : (cut position character rest).kind = .unrecognized) :
    cut position character rest =
      ⟨.unrecognized, [character], rest,
        [⟨.unrecognizedCharacter character,
          ⟨position, position.right (unitWidth character)⟩⟩]⟩ := by
  cases mark : punctuationKind? character with
  | some kind =>
      rw [cut_of_mark mark] at isUnrecognized
      exact absurd isUnrecognized (kind_of_mark mark).2
  | none =>
      by_cases isComment :
          character = '#' ∨ (character = '/' ∧ rest.head? = some '/')
      · rw [cut_of_comment isComment] at isUnrecognized
        contradiction
      by_cases isQuote : character = '"'
      · rw [isQuote, cut_of_quote] at isUnrecognized
        contradiction
      by_cases isDigit : character.isDigit = true
      · rw [cut_of_isDigit isDigit] at isUnrecognized
        contradiction
      by_cases isStart : isWordStart character = true
      · have isWord := TokenKind.ofWord_mem
          (String.ofList (character :: rest.takeWhile isWordPart))
        rw [cut_of_isWordStart isStart] at isUnrecognized
        rw [show TokenKind.ofWord _ = .unrecognized from isUnrecognized]
          at isWord
        exact absurd isWord (by decide)
      simp [cut, mark, isComment, isQuote, isDigit, isStart]

theorem diagnostics_cut_eq_nil
    (notString : (cut position character rest).kind ≠ .string)
    (recognized : (cut position character rest).kind ≠ .unrecognized) :
    (cut position character rest).diagnostics = [] := by
  cases mark : punctuationKind? character with
  | some kind => rw [cut_of_mark mark]
  | none =>
      simp only [cut, mark] at notString recognized ⊢
      split_ifs at notString recognized ⊢
      · rfl
      · exact absurd rfl notString
      · rfl
      · rfl
      · exact absurd rfl recognized

theorem pieces_toToken_cutString (position place : Position)
    (rest : List Char) :
    ((cutString position rest).toToken place).pieces =
      StringPiece.ofCharacters
        (StringBody.read (position.right 1) rest).characters := by
  simp [Token.pieces, toToken, cutString]

theorem isClosed_toToken_cutString (position place : Position)
    (rest : List Char) :
    ((cutString position rest).toToken place).IsClosed ↔
      (StringBody.read (position.right 1) rest).isClosed = true := by
  obtain ⟨front, noQuote, pieces⟩ :=
    StringBody.exists_pieces_read (position.right 1) rest
  rw [Token.IsClosed, pieces_toToken_cutString, pieces, List.mem_append,
    or_iff_right noQuote]
  split
  · rename_i closed
    simp [closed]
  · rename_i notClosed
    simp [notClosed]

/-- Cutting a token reports what is known from its text. -/
theorem diagnostics_cut (position : Position) (character : Char)
    (rest : List Char) :
    (cut position character rest).diagnostics =
      ((cut position character rest).toToken position).faults := by
  by_cases isString : (cut position character rest).kind = .string
  · rw [(cut_of_kind_string isString).2]
    have closed := isClosed_toToken_cutString position position rest
    have pieces := pieces_toToken_cutString position position rest
    change (StringBody.read (position.right 1) rest).diagnostics ++ _ =
      StringPiece.faults (position.right 1) _ ++ _
    rw [pieces, ← StringBody.diagnostics_read]
    simp only [closed]
    rfl
  by_cases isUnrecognized :
      (cut position character rest).kind = .unrecognized
  · rw [cut_of_kind_unrecognized isUnrecognized]
    simp [Token.faults, toToken]
  · rw [diagnostics_cut_eq_nil isString isUnrecognized]
    exact (Token.faults_eq_nil isString isUnrecognized).symm

end Lexeme

/-- What is known of a token from the way it was cut: an unrecognized one is a single
character, and a string is read from its opening quote to the first quote that stands
for itself. -/
structure Token.IsWellCut (token : Token) : Prop where
  single : token.kind = .unrecognized →
    ∃ character, token.text.toList = [character]
  text_eq : token.kind = .string → token.text.toList =
    '"' :: token.pieces.flatMap StringPiece.characters
  ends : token.kind = .string → ∃ front, .plain '"' ∉ front ∧
    token.pieces = front ++ if token.IsClosed then [.plain '"'] else []

namespace Scan

theorem isWellCut_of_mem {position : Position} {text : List Char}
    {token : Token} (member : token ∈ (scanFrom position text).tokens) :
    token.IsWellCut := by
  obtain ⟨place, character, rest, -, rfl, -⟩ := exists_cut_of_mem member
  refine ⟨fun isUnrecognized => ?_, fun isString => ?_, fun isString => ?_⟩
  · have cut := Lexeme.cut_of_kind_unrecognized isUnrecognized
    exact ⟨character, by simp [Lexeme.toToken, cut]⟩
  · obtain ⟨-, cut⟩ := Lexeme.cut_of_kind_string isString
    rw [Token.pieces, StringPiece.flatMap_characters]
    simp [Lexeme.toToken, cut, Lexeme.cutString]
  · obtain ⟨-, cut⟩ := Lexeme.cut_of_kind_string isString
    rw [cut, Lexeme.pieces_toToken_cutString]
    simp only [Lexeme.isClosed_toToken_cutString]
    exact StringBody.exists_pieces_read (place.right 1) rest

/-- Scanning reports what is known from the tokens, in their order. -/
theorem diagnostics_scanFrom (position : Position) (text : List Char) :
    (scanFrom position text).diagnostics =
      (scanFrom position text).tokens.flatMap Token.faults := by
  fun_induction scanFrom position text with
  | case1 => rfl
  | case2 _ _ inductionHypothesis => exact inductionHypothesis
  | case3 _ _ _ _ _ inductionHypothesis => exact inductionHypothesis
  | case4 _ _ _ _ _ _ inductionHypothesis => exact inductionHypothesis
  | case5 position character rest _ _ _ lexeme finish token others
      inductionHypothesis =>
      rw [List.flatMap_cons, ← inductionHypothesis]
      exact congrArg (· ++ others.diagnostics)
        (Lexeme.diagnostics_cut position character rest)

end Scan

namespace Token

/-- A string without a report holds sound pieces between its quotes. -/
theorem IsWellCut.isSoundString {token : Token} (wellCut : token.IsWellCut)
    (isString : token.kind = .string) (unreported : token.faults = []) :
    token.IsSoundString := by
  obtain ⟨front, noQuote, pieces⟩ := wellCut.ends isString
  rw [faults_of_string isString, List.append_eq_nil_iff] at unreported
  have closed : token.IsClosed := by
    by_contra notClosed
    simp [notClosed] at unreported
  rw [if_pos closed] at pieces
  refine ⟨front, ?_, ?_⟩
  · rw [pieces, StringPiece.faults_append, List.append_eq_nil_iff]
      at unreported
    refine StringPiece.isSound_of_faults unreported.1.1 noQuote ?_
    · intro isBackslash
      obtain ⟨before, after, rfl⟩ := List.append_of_mem isBackslash
      have last : token.pieces =
          before ++ .plain '\\' :: (after ++ [.plain '"']) := by
        simpa using pieces
      simpa using StringPiece.eq_nil_of_backslash last
  · rw [wellCut.text_eq isString, pieces, List.flatMap_append]
    rfl

theorem IsSoundString.faults_eq_nil {token : Token}
    (sound : token.IsSoundString) (isString : token.kind = .string) :
    token.faults = [] := by
  obtain ⟨front, isSound, text⟩ := sound
  have pieces : token.pieces = front ++ [.plain '"'] := by
    rw [Token.pieces, text, List.tail_cons,
      StringPiece.ofCharacters_flatMap isSound]
    rfl
  have closed : token.IsClosed := by
    rw [IsClosed, pieces]
    exact List.mem_append_right _ (List.mem_singleton_self _)
  rw [faults_of_string isString, if_pos closed, List.append_nil, pieces,
    StringPiece.faults_append, StringPiece.faults_eq_nil isSound]
  rfl

theorem IsWellCut.faults_eq_nil_iff {token : Token}
    (wellCut : token.IsWellCut) :
    token.faults = [] ↔ token.kind ≠ .unrecognized ∧
      (token.kind = .string → token.IsSoundString) := by
  constructor
  · intro unreported
    refine ⟨fun isUnrecognized => ?_, fun isString => ?_⟩
    · obtain ⟨character, text⟩ := wellCut.single isUnrecognized
      simp [faults_of_unrecognized isUnrecognized, text] at unreported
    · exact wellCut.isSoundString isString unreported
  · rintro ⟨recognized, sound⟩
    by_cases isString : token.kind = .string
    · exact (sound isString).faults_eq_nil isString
    · exact faults_eq_nil isString recognized

end Token

/-- What a scan reports is known from its tokens: they are reported in their order,
and a faultless text has only recognized characters and sound strings. -/
structure Scan.ReportsFaults (scan : Scan) : Prop where
  diagnostics_eq : scan.diagnostics = scan.tokens.flatMap Token.faults
  isWellCut : ∀ token ∈ scan.tokens, token.IsWellCut
  diagnostics_eq_nil_iff : scan.diagnostics = [] ↔
    ∀ token ∈ scan.tokens, token.kind ≠ .unrecognized ∧
      (token.kind = .string → token.IsSoundString)

theorem Scan.reportsFaults (text : String) : (ofText text).ReportsFaults where
  diagnostics_eq := diagnostics_scanFrom Position.origin text.toList
  isWellCut _ member := isWellCut_of_mem member
  diagnostics_eq_nil_iff := by
    rw [ofText, diagnostics_scanFrom, List.flatMap_eq_nil_iff]
    exact forall₂_congr fun token member =>
      (isWellCut_of_mem member).faults_eq_nil_iff

end WorkflowLang
