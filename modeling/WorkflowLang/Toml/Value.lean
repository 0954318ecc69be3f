import WorkflowLang.Toml.DateTime
import WorkflowLang.Toml.Table

/-!
# Values of TOML

Arrays and inline tables may hold values up to a fixed depth.  The reader of
values counts this depth down, so it always ends.
-/

namespace WorkflowLang
namespace Toml

def isBareKey (character : Char) : Bool :=
  character.isAlphanum || character == '_' || character == '-'

def keyPart : Reader String :=
  String.ofList <$>
    (basicString <|> literalString <|> Reader.someRun isBareKey)

/-- A key has fewer parts than this. -/
def keyBound : Nat := 80

/-- A key in parts with points between them, split before its last part. -/
def key : Reader (List String × String) := do
  let parts ← Reader.separated (discard (Reader.char '.')) do
    blanks
    let part ← keyPart
    blanks
    return part
  guard (parts.length < keyBound)
  let last ← parts.getLast?
  return (parts.dropLast, last)

def assignment (value : Reader Item) :
    Reader ((List String × String) × Item) := do
  let path ← key
  let _ ← Reader.char '='
  blanks
  let item ← value
  blanks
  return (path, item)

/-- A value that holds no others. -/
def scalar : Reader Item :=
  .string <$> string <|>
    (do dateTime; return .dateTime) <|>
    (do float; return .float) <|>
    .integer <$> integer <|>
    (do Reader.word "true"; return .boolean true) <|>
    (do Reader.word "false"; return .boolean false)

/-- An array.  A comma may follow its last value. -/
def array (value : Reader Item) : Reader Item := do
  let _ ← Reader.char '['
  let items ← Reader.separated (discard (Reader.char ',')) do
    spacing
    let item ← value
    spacing
    return item
  unless items.isEmpty do
    let _ ← optional (Reader.char ',')
  spacing
  let _ ← Reader.char ']'
  return .array items

/-- An inline table, which stands on one line. -/
def inlineTable (value : Reader Item) : Reader Item := do
  let _ ← Reader.char (Char.ofNat 0x7b)
  let members ← Reader.separated (discard (Reader.char ',')) (assignment value)
  blanks
  let _ ← Reader.char (Char.ofNat 0x7d)
  let entries ← members.foldlM
    (fun (entries : Entries) member =>
      entries.define member.1.1 member.1.2 member.2 .inline)
    []
  return .table .inline entries

/-- A value with at most so many arrays and inline tables around any other
value. -/
def valueWithin : Nat → Reader Item
  | 0 => scalar
  | depth + 1 =>
      scalar <|> array (valueWithin depth) <|> inlineTable (valueWithin depth)

/-- The greatest depth of nested arrays and inline tables. -/
def greatestDepth : Nat := 79

def value : Reader Item := valueWithin greatestDepth

end Toml
end WorkflowLang
