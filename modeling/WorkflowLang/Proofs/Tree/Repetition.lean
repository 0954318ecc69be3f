import WorkflowLang.Tree.Parse

/-!
# Lists up to a closing token

Items, members and properties are read by one loop: it stops at the closing
token or at the end, gives up when the first token of the next piece is missing,
and reads a piece otherwise.  `Cursor.Repeats` is that loop as a relation, so
that what holds of all three lists is shown once, by induction on the loop.
-/

namespace WorkflowLang

namespace Cursor

/-- The loop stops here. -/
def isBefore (cursor : Cursor) (close : TokenKind) : Bool :=
  cursor.isAtEnd || cursor.isNext close

/-- A run of the loop from a cursor to another, with the pieces it reads. -/
inductive Repeats {Piece : Type} (close : TokenKind)
    (resumable expected : List TokenKind)
    (parsePiece : Token → Cursor → Piece × Cursor) :
    Cursor → List Piece → Cursor → Prop
  | stop {cursor : Cursor} :
      cursor.isBefore close = true →
        Repeats close resumable expected parsePiece cursor [] cursor
  | giveUp {cursor : Cursor} :
      cursor.isBefore close = false →
      (cursor.take resumable expected).1.isMissing = true →
        Repeats close resumable expected parsePiece cursor []
          (cursor.take resumable expected).2
  | piece {cursor finish : Cursor} {others : List Piece} :
      cursor.isBefore close = false →
      (cursor.take resumable expected).1.isMissing = false →
      Repeats close resumable expected parsePiece
        (parsePiece (cursor.take resumable expected).1
          (cursor.take resumable expected).2).2 others finish →
        Repeats close resumable expected parsePiece cursor
          ((parsePiece (cursor.take resumable expected).1
            (cursor.take resumable expected).2).1 :: others) finish

end Cursor

namespace SyntaxTree

open TokenKind (propertyKeywords)

/-- What follows the string of an array item. -/
def parseItem (value : Token) (cursor : Cursor) : ArrayItem × Cursor :=
  (⟨value, cursor.takeComma.1⟩, cursor.takeComma.2)

theorem parseItems_repeats (cursor : Cursor) :
    Cursor.Repeats .rightBracket propertyResumable [.string] parseItem cursor
      (parseItems cursor).1 (parseItems cursor).2 := by
  fun_induction parseItems cursor with
  | case1 cursor guard => exact .stop guard
  | case2 cursor guard value present comma _ inductionHypothesis =>
      exact .piece (by simpa [Cursor.isBefore] using guard) present
        inductionHypothesis
  | case3 cursor guard value absent =>
      exact .giveUp (by simpa [Cursor.isBefore] using guard)
        (by simpa using absent)

theorem parseMembers_repeats (cursor : Cursor) :
    Cursor.Repeats .rightBrace propertyResumable [.identifier] parseMember
      cursor (parseMembers cursor).1 (parseMembers cursor).2 := by
  fun_induction parseMembers cursor with
  | case1 cursor guard => exact .stop guard
  | case2 cursor guard name present member _ inductionHypothesis =>
      exact .piece (by simpa [Cursor.isBefore] using guard) present
        inductionHypothesis
  | case3 cursor guard name absent =>
      exact .giveUp (by simpa [Cursor.isBefore] using guard)
        (by simpa using absent)

theorem parseProperties_repeats (cursor : Cursor) :
    Cursor.Repeats .rightBrace bodyResumable propertyKeywords parseProperty
      cursor (parseProperties cursor).1 (parseProperties cursor).2 := by
  fun_induction parseProperties cursor with
  | case1 cursor guard => exact .stop guard
  | case2 cursor guard key present property _ inductionHypothesis =>
      exact .piece (by simpa [Cursor.isBefore] using guard) present
        inductionHypothesis
  | case3 cursor guard key absent =>
      exact .giveUp (by simpa [Cursor.isBefore] using guard)
        (by simpa using absent)

end SyntaxTree

end WorkflowLang
