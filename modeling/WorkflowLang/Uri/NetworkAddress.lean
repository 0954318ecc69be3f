import WorkflowLang.Text.Numeral

/-!
# Addresses of machines

A host may be named by a number.  The 32-bit numbers are written as up to four
numbers with points between them, of which the last one fills the bytes that the
others leave; the 128-bit numbers as eight hexadecimal numbers of 16 bits with
colons between them, where two colons stand for a stretch of zeros.
-/

namespace WorkflowLang
namespace NetworkAddress

/-- The value of a text in some base, if every character is a digit of it. -/
def valueInBase? (base : Nat) (digits : List Char) : Option Nat :=
  digits.foldlM
    (fun value digit => do
      let found ← Text.hexDigit? digit
      if found < base then some (base * value + found) else none)
    0

/-- The value of a part of a short address, which is decimal, hexadecimal behind
`0x` or octal behind a zero. -/
def shortPart? : List Char → Option Nat
  | [] => none
  | '0' :: 'x' :: digits | '0' :: 'X' :: digits => valueInBase? 16 digits
  | '0' :: digit :: digits => valueInBase? 8 (digit :: digits)
  | digits => valueInBase? 10 digits

/-- The parts of a name between its points; a point at its end adds none. -/
def nameParts (name : List Char) : List (List Char) :=
  let parts := name.splitOn '.'
  if parts.getLast? = some [] then parts.dropLast else parts

/-- A name whose last part is a number has to be a short address. -/
def endsInNumber (name : List Char) : Bool :=
  match (nameParts name).getLast? with
  | none => false
  | some part =>
      (!part.isEmpty && part.all Char.isDigit) || (shortPart? part).isSome

/-- The four bytes of a number, the most significant first. -/
def bytes (number : Nat) : List Nat :=
  [number / 16777216 % 256, number / 65536 % 256, number / 256 % 256,
    number % 256]

def short? (name : List Char) : Option Nat := do
  let parts ← (nameParts name).mapM shortPart?
  let last ← parts.getLast?
  let outer := parts.dropLast
  if outer.length < 4 && outer.all (· < 256) &&
      last < Nat.pow 256 (4 - outer.length) then
    some (outer.foldl (fun value part => 256 * value + part) 0 *
      Nat.pow 256 (4 - outer.length) + last)
  else none

def shortText (number : Nat) : String :=
  ".".intercalate ((bytes number).map toString)

/-- A number of 16 bits in a long address. -/
def longPart? (digits : List Char) : Option Nat :=
  if digits.isEmpty || 4 < digits.length then none
  else valueInBase? 16 digits

/-- A decimal byte without zeros in front. -/
def decimalByte? (digits : List Char) : Option Nat :=
  if digits.isEmpty || (digits.head? == some '0' && 1 < digits.length) then none
  else (valueInBase? 10 digits).filter (· < 256)

/-- The two parts that a short address fills at the end of a long one. -/
def embeddedParts? (name : List Char) : Option (List Nat) := do
  match ← (name.splitOn '.').mapM decimalByte? with
  | [first, second, third, fourth] =>
      some [256 * first + second, 256 * third + fourth]
  | _ => none

def longParts? (isAtEnd : Bool) (stretch : List Char) : Option (List Nat) :=
  if stretch.isEmpty then some []
  else
    let pieces := stretch.splitOn ':'
    match pieces.getLast? with
    | none => none
    | some last =>
        if isAtEnd && last.contains '.' then do
          return (← pieces.dropLast.mapM longPart?) ++ (← embeddedParts? last)
        else pieces.mapM longPart?

/-- The text in front of the first two colons, and the text behind them. -/
def splitAtColons : List Char → Option (List Char × List Char)
  | ':' :: ':' :: rest => some ([], rest)
  | character :: rest =>
      (splitAtColons rest).map fun (before, behind) =>
        (character :: before, behind)
  | [] => none

def long? (text : List Char) : Option (List Nat) :=
  match splitAtColons text with
  | none => (longParts? true text).filter (·.length == 8)
  | some (before, behind) => do
      let first ← longParts? false before
      let last ← longParts? true behind
      if first.length + last.length < 8 then
        some (first ++
          List.replicate (8 - first.length - last.length) 0 ++ last)
      else none

/-- The length of the zeros at the front. -/
def zeroCount (parts : List Nat) : Nat := (parts.takeWhile (· == 0)).length

/-- Where the first of the longest stretches of zeros begins, and its length. -/
def longestZeros : List Nat → Nat × Nat
  | [] => (0, 0)
  | part :: rest =>
      let here := zeroCount (part :: rest)
      let (start, length) := longestZeros rest
      if length ≤ here then (0, here) else (start + 1, length)

def longText (parts : List Nat) : String :=
  let write (stretch : List Nat) : String :=
    ":".intercalate
      (stretch.map fun part => String.ofList (Nat.toDigits 16 part))
  let (start, length) := longestZeros parts
  if length < 2 then write parts
  else write (parts.take start) ++ "::" ++ write (parts.drop (start + length))

end NetworkAddress
end WorkflowLang
