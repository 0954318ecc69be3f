import WorkflowLang.Proofs.Token.Rescanning
import WorkflowLang.Proofs.Tree.Mapping

/-!
# Tokens with gaps between them

Tokens that are cut again may be joined with any blanks between them, as long as
each of them ends before what is behind it.  Scanning the joined text finds them
again, at the places where they now stand (`SpacedToken.scanFrom_text`).
-/

namespace WorkflowLang

/-- A character that may stand between two tokens. -/
def IsGap (character : Char) : Prop :=
  Text.isLineBreak character = true ∨ character = ' ' ∨ character = '\t'

namespace Position

theorem right_right (position : Position) (width other : Nat) :
    (position.right width).right other = position.right (width + other) := by
  simp only [right, Nat.add_assoc]

theorem advance_of_not_isLineBreak {character : Char}
    (notBreak : Text.isLineBreak character = false) (position : Position)
    (rest : List Char) :
    position.advance (character :: rest) =
      (position.right (Text.unitWidth character)).advance rest := by
  rw [advance]
  · simp [notBreak]
  · rintro others rfl
    exact absurd notBreak (by decide)

/-- Without line breaks a text goes on to the right. -/
theorem advance_eq_right {text : List Char}
    (oneLine : ∀ character ∈ text, Text.isLineBreak character = false)
    (position : Position) :
    position.advance text = position.right (Text.units text) := by
  induction text generalizing position with
  | nil => rfl
  | cons character rest inductionHypothesis =>
      have here := oneLine character List.mem_cons_self
      have behind := inductionHypothesis fun other member =>
        oneLine other (List.mem_cons_of_mem _ member)
      rw [advance_of_not_isLineBreak here, behind, right_right,
        Text.units_cons]

end Position

/-- No pair of break characters begins a text that goes on behind its first part,
unless one begins in that part or where it ends. -/
theorem Text.alone_append {character : Char} {others rest : List Char}
    (notPair : ∀ behind, character = '\r' → others = '\n' :: behind → False)
    (whole : (character :: others).getLast? = some '\r' →
      rest.head? ≠ some '\n')
    (isReturn : character = '\r') : (others ++ rest).head? ≠ some '\n' := by
  cases others with
  | nil => exact whole (congrArg some isReturn)
  | cons next others =>
      intro isFeed
      obtain rfl : next = '\n' := by simpa using isFeed
      exact notPair others isReturn rfl

namespace Scan

theorem scanFrom_of_isLineBreak {character : Char}
    (isBreak : Text.isLineBreak character = true) (position : Position)
    {rest : List Char} (alone : character = '\r' → rest.head? ≠ some '\n') :
    scanFrom position (character :: rest) =
      scanFrom position.nextLine rest := by
  rw [scanFrom]
  · simp [isBreak]
  · rintro others isReturn rfl
    exact alone isReturn rfl

theorem scanFrom_of_blank {character : Char}
    (blank : character = ' ' ∨ character = '\t') (position : Position)
    (rest : List Char) :
    scanFrom position (character :: rest) =
      scanFrom (position.right 1) rest := by
  have notBreak : Text.isLineBreak character = false := by
    rcases blank with rfl | rfl <;> decide
  rw [scanFrom]
  · simp [notBreak, blank]
  · rintro others rfl
    exact absurd notBreak (by decide)

/-- Scanning passes over a gap, unless the gap ends within a line break. -/
theorem scanFrom_gap {gap rest : List Char}
    (blank : ∀ character ∈ gap, IsGap character)
    (whole : gap.getLast? = some '\r' → rest.head? ≠ some '\n')
    (position : Position) :
    scanFrom position (gap ++ rest) = scanFrom (position.advance gap) rest := by
  fun_induction Position.advance position gap with
  | case1 position => rfl
  | case2 position others inductionHypothesis =>
      rw [List.cons_append, List.cons_append, scanFrom]
      refine inductionHypothesis (fun character member => ?_) fun ends => ?_
      · exact blank character (by simp [member])
      · exact whole (by simp [List.getLast?_cons, ends])
  | case3 position character others notPair isBreak inductionHypothesis =>
      have alone := Text.alone_append notPair whole
      rw [List.cons_append, scanFrom_of_isLineBreak isBreak position alone]
      refine inductionHypothesis (fun other member => ?_) fun ends => ?_
      · exact blank other (List.mem_cons_of_mem _ member)
      · exact whole (by simp [List.getLast?_cons, ends])
  | case4 position character others notPair notBreak inductionHypothesis =>
      have isBlank : character = ' ' ∨ character = '\t' := by
        rcases blank character List.mem_cons_self with isBreak | isBlank
        · exact absurd isBreak notBreak
        · exact isBlank
      have width : Text.unitWidth character = 1 := by
        rcases isBlank with rfl | rfl <;> decide
      rw [List.cons_append, scanFrom_of_blank isBlank]
      rw [width] at inductionHypothesis ⊢
      refine inductionHypothesis (fun other member => ?_) fun ends => ?_
      · exact blank other (List.mem_cons_of_mem _ member)
      · exact whole (by simp [List.getLast?_cons, ends])

end Scan

/-- A token with the gap before it. -/
structure SpacedToken where
  gap : List Char
  token : Token

namespace SpacedToken

/-- The text of some tokens and of the gaps before them. -/
def text (pieces : List SpacedToken) : List Char :=
  pieces.flatMap fun piece => piece.gap ++ piece.token.text.toList

/-- The tokens where they stand when their text begins at a position. -/
def placed (position : Position) : List SpacedToken → List Token
  | [] => []
  | piece :: others =>
      let start := position.advance piece.gap
      piece.token.placedAt start ::
        placed (start.right (Text.units piece.token.text.toList)) others

def finish (position : Position) : List SpacedToken → Position
  | [] => position
  | piece :: others =>
      finish
        ((position.advance piece.gap).right
          (Text.units piece.token.text.toList))
        others

theorem map_unplaced_placed (pieces : List SpacedToken)
    (position : Position) :
    (placed position pieces).map Token.unplaced =
      pieces.map fun piece => piece.token.unplaced := by
  induction pieces generalizing position with
  | nil => rfl
  | cons piece others inductionHypothesis =>
      rw [placed, List.map_cons, inductionHypothesis]
      rfl

/-- Tokens are kept apart by their gaps and by what is behind them. -/
def Separated (rest : List Char) : List SpacedToken → Prop
  | [] => True
  | piece :: others =>
      (∀ character ∈ piece.gap, IsGap character) ∧ piece.token.IsRecut ∧
        piece.token.kind.EndsBefore (text others ++ rest) ∧
          Separated rest others

/-- Every token is cut again in front of what is behind it. -/
def Apart (rest : List Char) : List SpacedToken → Prop
  | [] => True
  | piece :: others =>
      (∀ character ∈ piece.gap, IsGap character) ∧
        piece.token.IsCutBefore (text others ++ rest) ∧ Apart rest others

theorem Separated.apart {pieces : List SpacedToken} {rest : List Char}
    (separated : Separated rest pieces) : Apart rest pieces := by
  induction pieces with
  | nil => trivial
  | cons piece others inductionHypothesis =>
      obtain ⟨blank, recut, ends, behind⟩ := separated
      exact ⟨blank, recut.isCutBefore ends, inductionHypothesis behind⟩

/-- Tokens that are cut apart are found again. -/
theorem Apart.scanFrom_text {pieces : List SpacedToken} {rest : List Char}
    (apart : Apart rest pieces) (position : Position) :
    Scan.scanFrom position (text pieces ++ rest) =
      (Scan.scanFrom (finish position pieces) rest).behind
        (placed position pieces) := by
  induction pieces generalizing position with
  | nil => rfl
  | cons piece others inductionHypothesis =>
      obtain ⟨blank, isCut, behind⟩ := apart
      have split : text (piece :: others) ++ rest =
          piece.gap ++ (piece.token.text.toList ++ (text others ++ rest)) := by
        simp [text]
      rw [split, Scan.scanFrom_gap blank fun _ => isCut.head?_ne_lineFeed,
        isCut.scanFrom, inductionHypothesis behind, Scan.behind_behind]
      rfl

/-- Separated tokens are found again. -/
theorem scanFrom_text {pieces : List SpacedToken} {rest : List Char}
    (separated : Separated rest pieces) (position : Position) :
    Scan.scanFrom position (text pieces ++ rest) =
      (Scan.scanFrom (finish position pieces) rest).behind
        (placed position pieces) :=
  separated.apart.scanFrom_text position

end SpacedToken

end WorkflowLang
