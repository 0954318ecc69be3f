/-!
# Pieces of a text

How output that is already laid out is taken apart again: at its line feeds, and
at the first occurrence of a separator.  These are not the lines of a source, in
which a carriage return ends a line too.
-/

namespace WorkflowLang
namespace Text

/-- The lines of a text in which line feeds end lines, together with a carriage
return before them.  The text after the last line feed is a line only when it is
not empty. -/
def fedLines : List Char → List (List Char)
  | [] => []
  | '\r' :: '\n' :: rest => [] :: fedLines rest
  | character :: rest =>
      if character == '\n' then [] :: fedLines rest
      else
        match fedLines rest with
        | [] => [[character]]
        | line :: others => (character :: line) :: others

/-- What stands before and behind the first occurrence of a separator. -/
def cutAt? (separator : List Char) : List Char → Option (List Char × List Char)
  | [] => if separator.isEmpty then some ([], []) else none
  | character :: rest =>
      if separator.isPrefixOf (character :: rest) then
        some ([], (character :: rest).drop separator.length)
      else
        (cutAt? separator rest).map fun found =>
          (character :: found.1, found.2)

end Text
end WorkflowLang
