import WorkflowLang.Text.Lines

/-!
# Source excerpts

An excerpt shows the line a span starts on, a chosen number of lines around it,
and a row of carets under the characters the span covers.  Rows keep their
gutter and their content apart; `Excerpt.render` is the plain text of an excerpt.

The number of context lines is a 64-bit word, and the last line to show is
found by a sum of such words.  Where the sum is not a word itself, there is no
excerpt and the program stops.
-/

namespace WorkflowLang

/-- What stops the program before it has a result. -/
inductive Abort where
  /-- A sum of 64-bit words that is not one itself. -/
  | overflow
  deriving DecidableEq, Inhabited, Repr

def Abort.message : Abort → String
  | .overflow => "attempt to add with overflow"

inductive ExcerptRow where
  /-- A source line after its one-based number. -/
  | source (number : Nat) (text : List Char)
  /-- Carets under some characters of the source line above. -/
  | carets (offset count : Nat)
  deriving DecidableEq, Inhabited, Repr

/-- Rows whose line numbers share one column of `gutterWidth` characters. -/
structure Excerpt where
  gutterWidth : Nat
  rows : List ExcerptRow
  deriving DecidableEq, Inhabited, Repr

namespace ExcerptRow

/-- The right-aligned line number, or blanks in a row of carets. -/
def gutter (width : Nat) : ExcerptRow → String
  | .source number _ =>
      let digits := toString number
      String.ofList (List.replicate (width - digits.length) ' ') ++ digits
  | .carets _ _ => String.ofList (List.replicate width ' ')

/-- What stands to the right of the gutter. -/
def content : ExcerptRow → String
  | .source _ text => String.ofList text
  | .carets offset count =>
      String.ofList (List.replicate offset ' ' ++ List.replicate count '^')

def render (width : Nat) (row : ExcerptRow) : String :=
  row.gutter width ++ " | " ++ row.content

end ExcerptRow

namespace Excerpt

/-- The sum of two 64-bit words. -/
def wordSum (first second : Nat) : Except Abort Nat :=
  if first + second < UInt64.size then .ok (first + second)
  else .error .overflow

/-- The row of carets under a line: one caret per covered character and at
least one, up to the end of the line when the span goes on below it. -/
def caretRow (line : List Char) (span : Span) : ExcerptRow :=
  let start := Text.characterOffset line span.start.column
  let finish :=
    if span.finish.line = span.start.line then
      Text.characterOffset line span.finish.column
    else line.length
  .carets start (max (finish - start) 1)

/-- The rows of one source line: the line itself, followed by carets when the
span starts on it. -/
def lineRows (span : Span) (line : List Char) (index : Nat) :
    List ExcerptRow :=
  let row := ExcerptRow.source (index + 1) line
  if index = span.start.line then [row, caretRow line span] else [row]

/-- The rows of the lines from a first to a last one. -/
def ofLines (lines : List (List Char)) (span : Span) (first last : Nat) :
    Excerpt :=
  let shown := (lines.zipIdx.take (last + 1)).drop first
  { gutterWidth := max (toString (last + 1)).length 3
    rows := shown.flatMap fun entry => lineRows span entry.1 entry.2 }

/-- The lines around the start of a span; nothing when the text does not reach
that line. -/
def around (source : List Char) (span : Span) (context : Nat) :
    Except Abort Excerpt :=
  let lines := Text.lines source
  let line := span.start.line
  if line < lines.length then
    (wordSum line context).map fun sum =>
      ofLines lines span (line - context) (min sum (lines.length - 1))
  else
    .ok { gutterWidth := 0, rows := [] }

def render (excerpt : Excerpt) : String :=
  String.join
    (excerpt.rows.map fun row => row.render excerpt.gutterWidth ++ "\n")

/-- The text of the excerpt around the start of a span. -/
def textAround (source : List Char) (span : Span) (context : Nat) :
    Except Abort String :=
  (around source span context).map render

end Excerpt
end WorkflowLang
