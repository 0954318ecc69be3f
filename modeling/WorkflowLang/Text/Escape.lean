import WorkflowLang.Text.Unprintable
import WorkflowLang.Text.CombiningMark

/-!
# Characters inside messages

A message that names one character must stay readable whatever the character
is.  Quotes, the backslash and the common controls are written as two-character
escapes, combining marks and unprintable characters by their code point, and
every other character as itself.
-/

namespace WorkflowLang
namespace Text

/-- The code point of a character as `\u` and lower-case hexadecimal digits in
braces, without leading zeros. -/
def codePointEscape (character : Char) : List Char :=
  ['\\', 'u', Char.ofNat 0x7b] ++ Nat.toDigits 16 character.toNat ++
    [Char.ofNat 0x7d]

/-- The form in which a message names a character. -/
def escape (character : Char) : List Char :=
  if character = Char.ofNat 0 then ['\\', '0']
  else if character = '\t' then ['\\', 't']
  else if character = '\r' then ['\\', 'r']
  else if character = '\n' then ['\\', 'n']
  else if character = '\'' then ['\\', '\'']
  else if character = '"' then ['\\', '"']
  else if character = '\\' then ['\\', '\\']
  else if isCombiningMark character || isUnprintable character then
    codePointEscape character
  else [character]

/-- The form in which a message quotes a text.  Between double quotes a single one
needs no escape. -/
def quote (text : String) : String :=
  String.ofList ('"' ::
    text.toList.flatMap (fun character =>
      if character = '\'' then [character] else escape character) ++ ['"'])

end Text
end WorkflowLang
