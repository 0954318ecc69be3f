import WorkflowLang.Diagnostic
import WorkflowLang.Text.Lines

/-!
# Cutting a text into tokens

Scanning never fails.  Spaces, tabs and line breaks separate tokens; a character
outside the vocabulary becomes a token of its own and is reported, and a string
that is not closed ends at the end of its line.  Every step takes characters off
the front of the text, so nothing but blanks is lost between two tokens
(`Lexeme.cut_append`).
-/

namespace WorkflowLang

/-- The characters that may follow a backslash in a string. -/
def escapableCharacters : List Char :=
  ['\\', '/', '"', 'b', 'f', 'n', 'r', 't']

def isControl (character : Char) : Bool :=
  character.toNat ≤ 0x1f || character.toNat == 0x7f

/-- Reports the character after a backslash unless it makes an escape. -/
def escapeDiagnostics (position : Position) (escaped : Char) :
    List Diagnostic :=
  if escapableCharacters.contains escaped then []
  else
    [⟨.unsupportedEscape escaped,
      ⟨position, position.right (Text.unitWidth escaped)⟩⟩]

def controlDiagnostics (position : Position) (character : Char) :
    List Diagnostic :=
  if isControl character then
    [⟨.unrecognizedCharacter character, ⟨position, position.right 1⟩⟩]
  else []

/-- What follows the opening quote of a string: its characters including the
closing quote, the rest of the text, the problems found on the way, and whether
there was a closing quote. -/
structure StringBody where
  characters : List Char
  rest : List Char
  diagnostics : List Diagnostic
  isClosed : Bool
  deriving DecidableEq, Inhabited, Repr

namespace StringBody

/-- Reads up to the closing quote or the end of the line.  A backslash takes
the next character with it, but never a line break. -/
def read (position : Position) : List Char → StringBody
  | [] => ⟨[], [], [], false⟩
  | '"' :: rest => ⟨['"'], rest, [], true⟩
  | '\\' :: escaped :: rest =>
      if Text.isLineBreak escaped then
        ⟨['\\'], escaped :: rest, [], false⟩
      else
        let body :=
          read (position.right (1 + Text.unitWidth escaped)) rest
        { characters := '\\' :: escaped :: body.characters
          rest := body.rest
          diagnostics :=
            escapeDiagnostics (position.right 1) escaped ++ body.diagnostics
          isClosed := body.isClosed }
  | character :: rest =>
      if Text.isLineBreak character then
        ⟨[], character :: rest, [], false⟩
      else
        let body := read (position.right (Text.unitWidth character)) rest
        { characters := character :: body.characters
          rest := body.rest
          diagnostics :=
            controlDiagnostics position character ++ body.diagnostics
          isClosed := body.isClosed }

theorem read_append (position : Position) (text : List Char) :
    (read position text).characters ++ (read position text).rest = text := by
  fun_induction read position text <;> simp_all +zetaDelta

end StringBody

def punctuationKind? : Char → Option TokenKind
  | '=' => some .equal
  | ',' => some .comma
  | '{' => some .leftBrace
  | '}' => some .rightBrace
  | '[' => some .leftBracket
  | ']' => some .rightBracket
  | _ => none

/-- Words begin with an ASCII letter or an underscore. -/
def isWordStart (character : Char) : Bool :=
  character == '_' || character.isAlpha

/-- Words go on with ASCII letters, digits and underscores. -/
def isWordPart (character : Char) : Bool :=
  isWordStart character || character.isDigit

/-- The characters of one token, cut off the front of a text. -/
structure Lexeme where
  kind : TokenKind
  characters : List Char
  rest : List Char
  diagnostics : List Diagnostic
  deriving DecidableEq, Inhabited, Repr

namespace Lexeme

/-- A string literal whose opening quote stands at `position`. -/
def cutString (position : Position) (rest : List Char) : Lexeme :=
  let body := StringBody.read (position.right 1) rest
  let characters := '"' :: body.characters
  let unclosed :=
    if body.isClosed then []
    else
      [⟨.unterminatedString,
        ⟨position, position.right (Text.units characters)⟩⟩]
  ⟨.string, characters, body.rest, body.diagnostics ++ unclosed⟩

/-- The longest run of characters that satisfy `isPart`, behind a first one. -/
def cutRun (kind : List Char → TokenKind) (isPart : Char → Bool)
    (character : Char) (rest : List Char) : Lexeme :=
  let characters := character :: rest.takeWhile isPart
  ⟨kind characters, characters, rest.dropWhile isPart, []⟩

/-- The first token of a text that begins with a character other than a blank
or a line break. -/
def cut (position : Position) (character : Char) (rest : List Char) :
    Lexeme :=
  match punctuationKind? character with
  | some kind => ⟨kind, [character], rest, []⟩
  | none =>
      if character = '#' ∨ (character = '/' ∧ rest.head? = some '/') then
        cutRun (fun _ => .comment) (fun next => !Text.isLineBreak next)
          character rest
      else if character = '"' then cutString position rest
      else if character.isDigit then
        cutRun (fun _ => .integer) Char.isDigit character rest
      else if isWordStart character then
        cutRun (fun word => .ofWord (String.ofList word)) isWordPart
          character rest
      else
        ⟨.unrecognized, [character], rest,
          [⟨.unrecognizedCharacter character,
            ⟨position, position.right (Text.unitWidth character)⟩⟩]⟩

theorem cutRun_append (kind : List Char → TokenKind) (isPart : Char → Bool)
    (character : Char) (rest : List Char) :
    (cutRun kind isPart character rest).characters ++
        (cutRun kind isPart character rest).rest =
      character :: rest := by
  simp [cutRun]

theorem cutString_append (position : Position) (rest : List Char) :
    (cutString position rest).characters ++ (cutString position rest).rest =
      '"' :: rest := by
  simp [cutString, StringBody.read_append]

theorem cut_append (position : Position) (character : Char)
    (rest : List Char) :
    (cut position character rest).characters ++
        (cut position character rest).rest =
      character :: rest := by
  unfold cut
  split
  · rfl
  · split
    · exact cutRun_append _ _ _ _
    · split
      · rename_i isQuote
        rw [isQuote]
        exact cutString_append _ _
      · split
        · exact cutRun_append _ _ _ _
        · split
          · exact cutRun_append _ _ _ _
          · rfl

theorem characters_cut_ne_nil (position : Position) (character : Char)
    (rest : List Char) :
    (cut position character rest).characters ≠ [] := by
  unfold cut cutRun cutString
  repeat' split
  all_goals simp

theorem length_rest_cut_lt (position : Position) (character : Char)
    (rest : List Char) :
    (cut position character rest).rest.length < (character :: rest).length := by
  have lossless := congrArg List.length (cut_append position character rest)
  have nonempty := List.length_pos_iff.mpr
    (characters_cut_ne_nil position character rest)
  simp only [List.length_append] at lossless
  omega

end Lexeme

/-- The tokens of a text, comments and unrecognized characters included, and
the problems found while cutting them. -/
structure Scan where
  tokens : List Token
  diagnostics : List Diagnostic
  deriving DecidableEq, Inhabited, Repr

namespace Scan

/-- Scans a piece of text that begins at `position`. -/
def scanFrom (position : Position) : List Char → Scan
  | [] => ⟨[], []⟩
  | '\r' :: '\n' :: rest => scanFrom position.nextLine rest
  | character :: rest =>
      if Text.isLineBreak character then scanFrom position.nextLine rest
      else if character = ' ' ∨ character = '\t' then
        scanFrom (position.right 1) rest
      else
        let lexeme := Lexeme.cut position character rest
        let finish := position.right (Text.units lexeme.characters)
        let token : Token :=
          ⟨lexeme.kind, ⟨position, finish⟩, String.ofList lexeme.characters⟩
        let others := scanFrom finish lexeme.rest
        { tokens := token :: others.tokens
          diagnostics := lexeme.diagnostics ++ others.diagnostics }
termination_by text => text.length
decreasing_by
  · simp only [List.length_cons]
    omega
  · simp
  · simp
  · exact Lexeme.length_rest_cut_lt _ _ _

def ofText (text : String) : Scan :=
  scanFrom Position.origin text.toList

end Scan
end WorkflowLang
