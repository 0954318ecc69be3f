/-!
# Digits and unsigned numerals

A numeral is a run of ASCII digits, optionally behind one plus sign.  Numerals
are read into words, so one whose value reaches the bound of the word has no
value.
-/

namespace WorkflowLang
namespace Text

def hexDigit? (character : Char) : Option Nat :=
  if character.isDigit then some (character.toNat - '0'.toNat)
  else if 'a' ≤ character && character ≤ 'f' then
    some (character.toNat - 'a'.toNat + 10)
  else if 'A' ≤ character && character ≤ 'F' then
    some (character.toNat - 'A'.toNat + 10)
  else none

/-- The value of a run of decimal digits behind a value already read. -/
def decimalValue (value : Nat) (digits : List Char) : Nat :=
  digits.foldl
    (fun total digit => 10 * total + (digit.toNat - '0'.toNat)) value

/-- The value of a numeral, if it is one and less than a bound. -/
def numeral? (bound : Nat) (text : String) : Option Nat :=
  let digits :=
    match text.toList with
    | '+' :: others => others
    | characters => characters
  if digits.isEmpty || !digits.all Char.isDigit then none
  else
    let value := decimalValue 0 digits
    if value < bound then some value else none

end Text
end WorkflowLang
