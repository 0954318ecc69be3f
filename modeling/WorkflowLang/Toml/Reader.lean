/-!
# Readers of TOML text

A reader takes a value off the front of a text, or fails.  Readers are combined
in sequence, as alternatives and in repetition; a repetition stops where its
reader fails or takes nothing, so it always ends.
-/

namespace WorkflowLang
namespace Toml

abbrev Reader := StateT (List Char) Option

namespace Reader

variable {α : Type}

def satisfying (isMember : Char → Bool) : Reader Char
  | [] => none
  | character :: rest =>
      if isMember character then some (character, rest) else none

def char (expected : Char) : Reader Char :=
  satisfying fun character => character == expected

/-- The given characters, one behind the other. -/
def word (expected : String) : Reader Unit :=
  expected.toList.forM fun character => discard (char character)

/-- The longest run of characters of a class, which may be empty. -/
def run (isMember : Char → Bool) : Reader (List Char) := fun text =>
  some (text.takeWhile isMember, text.dropWhile isMember)

/-- The longest run of characters of a class, which may not be empty. -/
def someRun (isMember : Char → Bool) : Reader (List Char) := do
  let taken ← run isMember
  guard !taken.isEmpty
  return taken

def finish : Reader Unit := fun text =>
  if text.isEmpty then some ((), text) else none

/-- The values that a reader takes off a text until it fails, and the rest. -/
def takeAll (reader : Reader α) (text : List Char) : List α × List Char :=
  match reader text with
  | none => ([], text)
  | some (value, rest) =>
      if rest.length < text.length then
        let (values, final) := takeAll reader rest
        (value :: values, final)
      else ([], text)
termination_by text.length

/-- As many values as there are. -/
def many (reader : Reader α) : Reader (List α) := fun text =>
  some (takeAll reader text)

/-- As many values as there are, with a separator between each two. -/
def separated (separator : Reader Unit) (reader : Reader α) :
    Reader (List α) :=
  (do
    let first ← reader
    let others ← many (separator *> reader)
    return first :: others) <|> pure []

end Reader

/-- Spaces and tabs, the only blanks inside a line. -/
def isBlank (character : Char) : Bool :=
  character == ' ' || character == '\t'

def blanks : Reader Unit := discard (Reader.run isBlank)

/-- A line feed, with or without a carriage return in front of it. -/
def newline : Reader Unit := do
  let _ ← optional (Reader.char '\r')
  let _ ← Reader.char '\n'

/-- Characters outside ASCII are allowed wherever printable ones are. -/
def isPrintable (character : Char) : Bool :=
  character == '\t' || (' ' ≤ character && character ≤ '~') ||
    Char.ofNat 0x80 ≤ character

/-- A comment, up to the end of its line. -/
def comment : Reader Unit := do
  let _ ← Reader.char '#'
  let _ ← Reader.run isPrintable

/-- Blanks, newlines and comments, as they stand between the values of an
array. -/
def spacing : Reader Unit := do
  blanks
  let _ ← Reader.many do
    let _ ← optional comment
    newline
    blanks

def lineEnd : Reader Unit := do
  blanks
  let _ ← optional comment
  newline <|> Reader.finish

end Toml
end WorkflowLang
