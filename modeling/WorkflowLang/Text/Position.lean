/-!
# Positions and spans

A position is a zero-based line together with a column counted in UTF-16 code
units, the unit editors use.  Positions are ordered lexicographically, and a
span is a pair of positions.  Spans are closed intervals for the purpose of
`Span.Contains`: a cursor standing right after the last character of a word
still touches that word.
-/

namespace WorkflowLang

/-- A zero-based line and a zero-based column in UTF-16 code units. -/
structure Position where
  line : Nat
  column : Nat
  deriving DecidableEq, Inhabited, Repr

namespace Position

def origin : Position := ⟨0, 0⟩

/-- Lexicographic order: lines first, then columns. -/
def Precedes (first second : Position) : Prop :=
  first.line < second.line ∨
    (first.line = second.line ∧ first.column ≤ second.column)

instance : LE Position := ⟨Precedes⟩

instance decidablePrecedes (first second : Position) :
    Decidable (first ≤ second) :=
  inferInstanceAs (Decidable (_ ∨ _))

theorem le_def (first second : Position) :
    first ≤ second ↔
      first.line < second.line ∨
        (first.line = second.line ∧ first.column ≤ second.column) :=
  Iff.rfl

theorem le_refl (position : Position) : position ≤ position :=
  Or.inr ⟨rfl, Nat.le_refl _⟩

theorem le_trans {first second third : Position}
    (firstLe : first ≤ second) (secondLe : second ≤ third) :
    first ≤ third := by
  simp only [le_def] at *
  omega

theorem le_total (first second : Position) :
    first ≤ second ∨ second ≤ first := by
  simp only [le_def]
  omega

theorem le_antisymm {first second : Position}
    (firstLe : first ≤ second) (secondLe : second ≤ first) :
    first = second := by
  cases first
  cases second
  simp only [le_def, mk.injEq] at *
  omega

def earlier (first second : Position) : Position :=
  if first ≤ second then first else second

def later (first second : Position) : Position :=
  if first ≤ second then second else first

/-- The position `width` units further to the right on the same line. -/
def right (position : Position) (width : Nat) : Position :=
  ⟨position.line, position.column + width⟩

def nextLine (position : Position) : Position :=
  ⟨position.line + 1, 0⟩

/-- The one-based `line:column` form shown to people. -/
def display (position : Position) : String :=
  toString (position.line + 1) ++ ":" ++ toString (position.column + 1)

end Position

structure Span where
  start : Position
  finish : Position
  deriving DecidableEq, Inhabited, Repr

namespace Span

def origin : Span := ⟨Position.origin, Position.origin⟩

/-- A span of `width` units on one line. -/
def single (line column width : Nat) : Span :=
  ⟨⟨line, column⟩, ⟨line, column + width⟩⟩

def merge (first second : Span) : Span :=
  ⟨first.start.earlier second.start, first.finish.later second.finish⟩

/-- A position lies in a span when it is between its ends, both included. -/
def Contains (span : Span) (position : Position) : Prop :=
  span.start ≤ position ∧ position ≤ span.finish

def Covers (outer inner : Span) : Prop :=
  outer.start ≤ inner.start ∧ inner.finish ≤ outer.finish

instance (span : Span) (position : Position) :
    Decidable (span.Contains position) :=
  inferInstanceAs (Decidable (_ ∧ _))

instance (outer inner : Span) : Decidable (outer.Covers inner) :=
  inferInstanceAs (Decidable (_ ∧ _))

/-- A span that goes on below the line it starts on. -/
def isMultiline (span : Span) : Bool :=
  decide (span.start.line < span.finish.line)

/-- The least span that covers every span of a list; the origin for none. -/
def cover : List Span → Span
  | [] => origin
  | first :: others => others.foldl merge first

end Span

end WorkflowLang
