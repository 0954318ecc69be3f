import WorkflowLang.Text.CombiningMark
import WorkflowLang.Text.Unprintable
import WorkflowLang.Uri.Punycode

/-!
# Domain names

Domain names do not tell upper-case letters from lower-case ones, and outside
ASCII they are written in Punycode, label by label.  A name is brought into one
form before it is compared: letters are folded, wide forms are made narrow, and
characters without a shape are left out.
-/

namespace WorkflowLang
namespace DomainName

/-- Letters whose lower-case form follows right after them, in intervals of code
points that begin with an upper-case one. -/
def alternatingRanges : List (Nat × Nat) :=
  [(0x100, 0x12f), (0x132, 0x137), (0x14a, 0x177), (0x1de, 0x1ef), (0x1f8, 0x21f),
    (0x222, 0x233), (0x370, 0x373), (0x3d8, 0x3ef), (0x460, 0x481), (0x48a, 0x4bf),
    (0x4d0, 0x52f), (0x1e00, 0x1e95), (0x1ea0, 0x1eff)]

/-- Letters whose lower-case form follows right after them, in intervals of code
points that begin with a lower-case one. -/
def shiftedAlternatingRanges : List (Nat × Nat) :=
  [(0x138, 0x148), (0x178, 0x17e), (0x1cc, 0x1dc), (0x4c0, 0x4ce)]

/-- Intervals of upper-case letters, with the distance to their lower-case
forms. -/
def distantRanges : List (Nat × Nat × Nat) :=
  [(0x41, 0x5a, 0x20), (0xc0, 0xd6, 0x20), (0xd8, 0xde, 0x20), (0x391, 0x3a1, 0x20),
    (0x3a3, 0x3ab, 0x20), (0x388, 0x38a, 0x25), (0x386, 0x386, 0x26),
    (0x38c, 0x38c, 0x40), (0x38e, 0x38f, 0x3f), (0x400, 0x40f, 0x50),
    (0x410, 0x42f, 0x20), (0x531, 0x556, 0x30), (0x4c0, 0x4c0, 0xf)]

def isWithin (ranges : List (Nat × Nat)) (point : Nat) : Bool :=
  ranges.any fun range => range.1 ≤ point && point ≤ range.2

def lowerPoint (point : Nat) : Nat :=
  match distantRanges.find? fun range =>
      decide (range.1 ≤ point ∧ point ≤ range.2.1) with
  | some range => point + range.2.2
  | none =>
      if isWithin alternatingRanges point && point % 2 == 0 then point + 1
      else if point == 0x178 then 0xff
      else if isWithin shiftedAlternatingRanges point && point % 2 == 1 then
        point + 1
      else point

/-- Characters without a shape, which a name may have anywhere. -/
def isIgnored (point : Nat) : Bool :=
  isWithin
    [(0xad, 0xad), (0x34f, 0x34f), (0x180b, 0x180d), (0x200b, 0x200b),
      (0x2060, 0x2060), (0x2064, 0x2064), (0xfe00, 0xfe0f), (0xfeff, 0xfeff)]
    point

/-- The narrow form of a wide ASCII character or of a full stop. -/
def narrowPoint (point : Nat) : Nat :=
  if 0xff01 ≤ point ∧ point ≤ 0xff5e then point - 0xfee0
  else if point = 0x3002 ∨ point = 0xff61 then '.'.toNat
  else point

/-- The characters that stand for a character in the one form of a name. -/
def fold (character : Char) : List Char :=
  if isIgnored character.toNat then []
  else [Char.ofNat (lowerPoint (narrowPoint character.toNat))]

/-- What a label in Punycode begins with. -/
def prefixText : List Char := ['x', 'n', '-', '-']

/-- Whether a label that is not ASCII has characters that can be read, of which
the first stands for itself. -/
def isReadable (label : List Char) : Bool :=
  !label.any Text.isUnprintable && !label.head?.any Text.isCombiningMark

/-- The ASCII form of a folded label.  A label that is in Punycode already has to
be the form of a label that needs it. -/
def asciiLabel? (label : List Char) : Option (List Char) :=
  if prefixText.isPrefixOf label then do
    let encoded := label.drop prefixText.length
    let decoded ← Punycode.decode? encoded
    if !decoded.all Punycode.isBasic && decoded.flatMap fold == decoded &&
        isReadable decoded && Punycode.encode decoded == encoded then
      some label
    else none
  else if label.all Punycode.isBasic then some label
  else if isReadable label then some (prefixText ++ Punycode.encode label)
  else none

def isForbidden (character : Char) : Bool :=
  character.toNat ≤ 0x20 || character.toNat == 0x7f ||
    "%#/:<>?@[\\]^|".toList.contains character

def ascii? (name : List Char) : Option (List Char) := do
  let labels ← ((name.flatMap fold).splitOn '.').mapM asciiLabel?
  let joined := ['.'].intercalate labels
  if joined.any isForbidden then none else some joined

end DomainName
end WorkflowLang
