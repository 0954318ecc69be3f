import WorkflowLang.Text.Numeral
import WorkflowLang.Toml.Reader

/-!
# Strings of TOML

A basic string stands between double quotes and knows escapes; a literal string
stands between single quotes and knows none.  Both have a form with three quotes
that spans several lines.
-/

namespace WorkflowLang
namespace Toml

/-- A number of exactly so many further hexadecimal digits behind a value
already read. -/
def hexNumber (value : Nat) : Nat → Reader Nat
  | 0 => pure value
  | count + 1 => do
      let digit ← Text.hexDigit? (← Reader.satisfying fun _ => true)
      hexNumber (16 * value + digit) count

/-- The character of a code point, which may not be a surrogate. -/
def codePoint (digitCount : Nat) : Reader Char := do
  let number ← hexNumber 0 digitCount
  guard ((Char.ofNat number).toNat = number)
  return Char.ofNat number

/-- A backslash and what it stands for together with what follows it. -/
def escaped : Reader Char := do
  let _ ← Reader.char '\\'
  match ← Reader.satisfying fun _ => true with
  | 'b' => return Char.ofNat 0x08
  | 't' => return '\t'
  | 'n' => return '\n'
  | 'f' => return Char.ofNat 0x0c
  | 'r' => return '\r'
  | '"' => return '"'
  | '\\' => return '\\'
  | 'u' => codePoint 4
  | 'U' => codePoint 8
  | _ => failure

/-- A backslash at the end of a line leaves out all blanks and newlines up to
the next other character. -/
def joinedLines : Reader Unit := do
  let _ ← Reader.char '\\'
  blanks
  newline
  let _ ← Reader.many (newline <|> discard (Reader.someRun isBlank))

/-- The characters that stand for themselves in a basic string. -/
def isBasic (character : Char) : Bool :=
  isPrintable character && character != '"' && character != '\\'

def isLiteral (character : Char) : Bool :=
  isPrintable character && character != '\''

def basicString : Reader (List Char) := do
  let _ ← Reader.char '"'
  let pieces ← Reader.many (Reader.someRun isBasic <|> (fun character =>
    [character]) <$> escaped)
  let _ ← Reader.char '"'
  return pieces.flatten

def literalString : Reader (List Char) := do
  let _ ← Reader.char '\''
  let content ← Reader.run isLiteral
  let _ ← Reader.char '\''
  return content

/-- A line break inside a string. -/
def contentNewline : Reader (List Char) := do
  newline
  return ['\n']

/-- One or two quotes, which do not end a string of several lines. -/
def innerQuotes (quote : Char) : Reader (List Char) := do
  let quotes ← Reader.someRun (· == quote)
  guard (quotes.length < 3)
  return quotes

/-- A string of several lines between three quotes and three quotes.  Up to two
further quotes may stand before the closing ones. -/
def longString (quote : Char) (piece : Reader (List Char)) :
    Reader (List Char) := do
  Reader.word (String.ofList [quote, quote, quote])
  let _ ← optional newline
  let pieces ← Reader.many (innerQuotes quote <|> contentNewline <|> piece)
  let closing ← Reader.someRun (· == quote)
  guard (3 ≤ closing.length && closing.length ≤ 5)
  return pieces.flatten ++ closing.drop 3

def longBasicString : Reader (List Char) :=
  longString '"' <|
    Reader.someRun isBasic <|> (do joinedLines; return []) <|>
      (fun character => [character]) <$> escaped

def longLiteralString : Reader (List Char) :=
  longString '\'' (Reader.someRun isLiteral)

/-- A string in one of the four forms. -/
def string : Reader String :=
  String.ofList <$>
    (longBasicString <|> basicString <|> longLiteralString <|> literalString)

end Toml
end WorkflowLang
