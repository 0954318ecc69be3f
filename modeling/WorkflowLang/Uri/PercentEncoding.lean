import WorkflowLang.Text.Numeral

/-!
# Percent-encoding

Inside a URI a character that has no place there is written as the bytes of its
UTF-8 form, each as a percent sign and two hexadecimal digits.  Which ASCII
characters have a place depends on the part of the URI; no other character has
one anywhere.
-/

namespace WorkflowLang
namespace Percent

/-- A byte as a percent sign and two upper-case hexadecimal digits. -/
def encodeByte (byte : UInt8) : List Char :=
  let digits := (Nat.toDigits 16 byte.toNat).map Char.toUpper
  '%' :: List.replicate (2 - digits.length) '0' ++ digits

/-- Controls are encoded in every part of a URI. -/
def isControl (character : Char) : Bool :=
  character.toNat < 0x20 || character.toNat == 0x7f

/-- Whether a character is encoded where some ASCII characters, besides the
controls, have no place. -/
def isEncoded (misplaced : List Char) (character : Char) : Bool :=
  character.toNat > 0x7f || isControl character ||
    misplaced.contains character

/-- Encodes the characters that have no place. -/
def encode (misplaced : List Char) (text : List Char) : List Char :=
  text.flatMap fun character =>
    if isEncoded misplaced character then
      (String.utf8EncodeChar character).flatMap encodeByte
    else [character]

/-- The bytes of a text, in which a percent sign with two hexadecimal digits
stands for one byte. -/
def decodeBytes : List Char → List UInt8
  | [] => []
  | '%' :: first :: second :: rest =>
      match Text.hexDigit? first, Text.hexDigit? second with
      | some high, some low => UInt8.ofNat (16 * high + low) :: decodeBytes rest
      | _, _ =>
          String.utf8EncodeChar '%' ++ decodeBytes (first :: second :: rest)
  | character :: rest => String.utf8EncodeChar character ++ decodeBytes rest

/-- The text that the bytes of a text make up, if they make up one. -/
def decode? (text : List Char) : Option (List Char) :=
  (String.fromUTF8? (ByteArray.mk (decodeBytes text).toArray)).map String.toList

end Percent
end WorkflowLang
