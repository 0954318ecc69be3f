/-!
# Punycode

A domain name that is not ASCII is written with ASCII characters alone: first
the ASCII characters that it has, then, behind a hyphen, where the others belong.
These are taken in increasing order, and each is described by the number of
insertions that were passed over since the one before it.  Such a number is
written with 36 digits, the least significant first; a digit below a threshold
ends it, and the thresholds follow the size of the numbers seen so far.
-/

namespace WorkflowLang
namespace Punycode

/-- The digit of a value: the letters count from 0, the digits from 26. -/
def digit (value : Nat) : Char :=
  if value < 26 then Char.ofNat ('a'.toNat + value)
  else Char.ofNat ('0'.toNat + (value - 26))

def digitValue? (character : Char) : Option Nat :=
  if character.isLower then some (character.toNat - 'a'.toNat)
  else if character.isDigit then some (character.toNat - '0'.toNat + 26)
  else none

/-- The threshold of a digit, whose position counts in steps of 36. -/
def threshold (bias position : Nat) : Nat :=
  min 26 (max 1 (position - bias))

theorem threshold_pos (bias position : Nat) : 0 < threshold bias position := by
  unfold threshold
  omega

/-- The bias that a scaled number leads to, in steps of 36. -/
def biasOf (steps number : Nat) : Nat :=
  if 455 < number then biasOf (steps + 36) (number / 35)
  else steps + 36 * number / (number + 38)
termination_by number
decreasing_by omega

/-- The bias after a number, with which so many characters are in place. -/
def adapt (number count : Nat) (isFirst : Bool) : Nat :=
  let scaled := if isFirst then number / 700 else number / 2
  biasOf 0 (scaled + scaled / count)

def numberDigits (bias position number : Nat) : List Char :=
  let least := threshold bias position
  if number < least then [digit number]
  else
    digit (least + (number - least) % (36 - least)) ::
      numberDigits bias (position + 36) ((number - least) / (36 - least))
termination_by number
decreasing_by
  have := threshold_pos bias position
  have := Nat.div_le_self (number - threshold bias position)
    (36 - threshold bias position)
  omega

/-- What is written, and what the next number depends on. -/
structure Encoding where
  digits : List Char
  /-- The insertions that were passed over. -/
  passed : Nat
  bias : Nat
  /-- The characters that are in place. -/
  count : Nat

/-- Passes over one character, or writes it if it is the one to insert. -/
def encodeStep (basicCount inserted : Nat) (encoding : Encoding)
    (character : Char) : Encoding :=
  if character.toNat < inserted then
    { encoding with passed := encoding.passed + 1 }
  else if character.toNat = inserted then
    { digits := encoding.digits ++
        numberDigits encoding.bias 36 encoding.passed
      passed := 0
      bias := adapt encoding.passed (encoding.count + 1)
        (encoding.count == basicCount)
      count := encoding.count + 1 }
  else encoding

/-- Writes all insertions of characters in increasing order. -/
def encodeAll (text : List Char) (basicCount : Nat) :
    List Nat → Nat → Encoding → Encoding
  | [], _, encoding => encoding
  | inserted :: others, least, encoding =>
      let started :=
        { encoding with
          passed := encoding.passed +
            (inserted - least) * (encoding.count + 1) }
      let finished := text.foldl (encodeStep basicCount inserted) started
      encodeAll text basicCount others (inserted + 1)
        { finished with passed := finished.passed + 1 }

def isBasic (character : Char) : Bool := character.toNat < 0x80

/-- The ASCII form of a text. -/
def encode (text : List Char) : List Char :=
  let basic := text.filter isBasic
  let others :=
    (((text.filter fun character => !isBasic character).map
      Char.toNat).eraseDups).mergeSort
  let separator := if basic.isEmpty then [] else ['-']
  basic ++ separator ++
    (encodeAll text basic.length others 0x80
      ⟨[], 0, 72, basic.length⟩).digits

/-- Reads one number, and gives what follows it. -/
def readNumber (bias position weight value : Nat) :
    List Char → Option (Nat × List Char)
  | [] => none
  | character :: rest => do
      let digit ← digitValue? character
      let least := threshold bias position
      let value := value + digit * weight
      if digit < least then some (value, rest)
      else readNumber bias (position + 36) (weight * (36 - least)) value rest

def insertAt (text : List Char) (index : Nat) (character : Char) : List Char :=
  text.take index ++ character :: text.drop index

/-- Reads insertions, and carries them out on the text so far. -/
def decodeFrom (text : List Char) (least index bias : Nat) (isFirst : Bool)
    (digits : List Char) : Option (List Char) :=
  if digits.isEmpty then some text
  else
    match readNumber bias 36 1 0 digits with
    | none => none
    | some (number, rest) =>
        let count := text.length + 1
        let inserted := least + (index + number) / count
        let place := (index + number) % count
        if inserted.isValidChar ∧ rest.length < digits.length then
          decodeFrom (insertAt text place (Char.ofNat inserted)) inserted
            (place + 1) (adapt number count isFirst) false rest
        else none
termination_by digits.length

/-- The text of an ASCII form, if it is one. -/
def decode? (encoded : List Char) : Option (List Char) :=
  let digits := (encoded.reverse.takeWhile (· != '-')).reverse
  let basic := (encoded.take (encoded.length - digits.length)).dropLast
  if basic.all isBasic then decodeFrom basic 0x80 0 72 true digits else none

end Punycode
end WorkflowLang
