import WorkflowLang.Text.Numeral
import WorkflowLang.Toml.Quoted

/-!
# Numbers of TOML

Underscores may stand between two digits of a number.  An integer has to fit a
signed word of 64 bits; a float is not kept, but one that is too large for a
binary number of 64 bits is no value.
-/

namespace WorkflowLang
namespace Toml

/-- Digits of a class, with at most one underscore between each two. -/
def digits (isDigit : Char → Bool) : Reader (List Char) := do
  let first ← Reader.satisfying isDigit
  let others ← Reader.many do
    let _ ← optional (Reader.char '_')
    Reader.satisfying isDigit
  return first :: others

/-- Whether the sign in front of a number, if there is one, is a minus. -/
def minus : Reader Bool :=
  (do let _ ← Reader.char '-'; return true) <|>
    (do let _ ← Reader.char '+'; return false) <|> pure false

def plainDigits : Reader (List Char) :=
  (do
    let _ ← Reader.char '0'
    return ['0']) <|> digits Char.isDigit

/-- The bound of the integers on either side. -/
def integerBound : Nat := UInt64.size / 2

def decimalInteger : Reader Int := do
  let isNegative ← minus
  let value := Text.decimalValue 0 (← plainDigits)
  if isNegative then
    guard (value ≤ integerBound)
    return -(value : Int)
  else
    guard (value < integerBound)
    return value

/-- An unsigned integer behind a zero and the mark of its base. -/
def basedInteger (mark : Char) (base : Nat) : Reader Int := do
  let _ ← Reader.char '0'
  let _ ← Reader.char mark
  let isDigit := fun character => (Text.hexDigit? character).any (· < base)
  let value := (← digits isDigit).foldl
    (fun total digit => base * total + (Text.hexDigit? digit).getD 0) 0
  guard (value < integerBound)
  return value

/-- An integer in one of the four bases. -/
def integer : Reader Int :=
  basedInteger 'x' 16 <|> basedInteger 'o' 8 <|> basedInteger 'b' 2 <|>
    decimalInteger

def exponent : Reader Int := do
  let _ ← Reader.char 'e' <|> Reader.char 'E'
  let isNegative ← minus
  let value := Text.decimalValue 0 (← digits Char.isDigit)
  return if isNegative then -(value : Int) else value

def fraction : Reader (List Char) := do
  let _ ← Reader.char '.'
  digits Char.isDigit

/-- The least number that rounds to infinity: half a unit above the largest
binary number of 64 bits. -/
def floatBound : Nat := Nat.pow 2 1024 - Nat.pow 2 970

/-- Whether a number in scientific form rounds to infinity.  Its leading digit
decides unless it stands at the leading place of the bound, which has 309
places. -/
def roundsToInfinity (whole fractional : List Char) (power : Int) : Bool :=
  let significant := (whole ++ fractional).dropWhile (· == '0')
  let places : Int := significant.length + power - fractional.length
  if significant.isEmpty || places < 309 then false
  else if 309 < places then true
  else
    floatBound * Nat.pow 10 significant.length ≤
      Text.decimalValue 0 significant * Nat.pow 10 309

/-- A float in digits, with a fraction, an exponent or both. -/
def decimalFloat : Reader Unit := do
  let isNegative ← minus
  let whole ← plainDigits
  let (fractional, power) ←
    (do return ([], ← exponent)) <|>
      (do
        let fractional ← fraction
        let power ← optional exponent
        return (fractional, power.getD 0))
  guard (isNegative || !roundsToInfinity whole fractional power)

/-- The float of an infinity or of no number. -/
def specialFloat : Reader Unit := do
  let _ ← minus
  Reader.word "inf" <|> Reader.word "nan"

def float : Reader Unit := decimalFloat <|> specialFloat

end Toml
end WorkflowLang
