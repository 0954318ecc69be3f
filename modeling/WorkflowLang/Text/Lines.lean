import WorkflowLang.Text.Position

/-!
# Lines and columns of a text

A carriage return followed by a line feed, a lone carriage return and a lone
line feed each end a line.  `Position.advance` walks a position over a piece of
text by these rules, and `Text.lines` cuts a text into its lines; the text after
the last break is a line only when it is not empty.
-/

namespace WorkflowLang
namespace Text

/-- The number of UTF-16 code units of a character. -/
def unitWidth (character : Char) : Nat :=
  if character.toNat < 0x10000 then 1 else 2

def units : List Char → Nat
  | [] => 0
  | character :: others => unitWidth character + units others

@[simp] theorem units_nil : units [] = 0 := rfl

@[simp] theorem units_cons (character : Char) (others : List Char) :
    units (character :: others) = unitWidth character + units others := rfl

theorem unitWidth_pos (character : Char) : 0 < unitWidth character := by
  unfold unitWidth
  split <;> omega

/-- The two characters that end lines. -/
def isLineBreak (character : Char) : Bool :=
  character == '\r' || character == '\n'

/-- The lines of a text, without their breaks. -/
def lines : List Char → List (List Char)
  | [] => []
  | '\r' :: '\n' :: rest => [] :: lines rest
  | character :: rest =>
      if isLineBreak character then [] :: lines rest
      else
        match lines rest with
        | [] => [[character]]
        | line :: others => (character :: line) :: others

/-- The number of characters of a line that start before a column. -/
def characterOffset : List Char → Nat → Nat
  | [], _ => 0
  | character :: rest, column =>
      if column = 0 then 0
      else characterOffset rest (column - unitWidth character) + 1

end Text

namespace Position

/-- The position reached by walking over a piece of text. -/
def advance : Position → List Char → Position
  | position, [] => position
  | position, '\r' :: '\n' :: rest => advance position.nextLine rest
  | position, character :: rest =>
      if Text.isLineBreak character then advance position.nextLine rest
      else advance (position.right (Text.unitWidth character)) rest

end Position

namespace Text

/-- The position just past the last character of a text. -/
def endPosition (text : List Char) : Position :=
  Position.origin.advance text

end Text
end WorkflowLang
