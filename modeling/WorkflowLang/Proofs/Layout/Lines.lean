import WorkflowLang.Layout
import WorkflowLang.Proofs.Token.Spacing
import WorkflowLang.Proofs.Tree.Mapping

/-!
# Scanning the lines of a layout

A line of a layout is an indentation, a first token made wide enough, and other
tokens behind one blank each; a comment may end it.  Scanning such lines finds
their tokens again, all tokens of a line on the same line of the text
(`TokenLine.scanFrom_renderAll`).
-/

namespace WorkflowLang

/-- An indent is made of spaces and tabs. -/
def IsIndent (indent : String) : Prop :=
  ∀ character ∈ indent.toList, character = ' ' ∨ character = '\t'

/-- The characters that end a line of a layout. -/
def IsNewline (newline : List Char) : Prop :=
  newline = ['\n'] ∨ newline = ['\r', '\n']

theorem IsNewline.isLineBreak_head {newline : List Char}
    (isNewline : IsNewline newline) (rest : List Char) :
    ∀ next ∈ (newline ++ rest).head?, Text.isLineBreak next = true := by
  rcases isNewline with rfl | rfl
  · rintro next ⟨⟩
    rfl
  · rintro next ⟨⟩
    rfl

theorem IsNewline.scanFrom {newline : List Char}
    (isNewline : IsNewline newline) (position : Position)
    (rest : List Char) :
    Scan.scanFrom position (newline ++ rest) =
      Scan.scanFrom position.nextLine rest := by
  rcases isNewline with rfl | rfl
  · exact Scan.scanFrom_of_isLineBreak rfl position (by simp)
  · rw [List.cons_append, List.cons_append, Scan.scanFrom]
    rfl

theorem isLineBreak_of_blank {character : Char}
    (blank : character = ' ' ∨ character = '\t') :
    Text.isLineBreak character = false := by
  rcases blank with rfl | rfl
  · rfl
  · rfl

/-- A text of spaces and tabs. -/
def IsBlank (text : List Char) : Prop :=
  ∀ character ∈ text, character = ' ' ∨ character = '\t'

namespace IsBlank

variable {text : List Char}

theorem isGap (blank : IsBlank text) :
    ∀ character ∈ text, IsGap character :=
  fun character member => Or.inr (blank character member)

theorem line_advance (blank : IsBlank text) (position : Position) :
    (position.advance text).line = position.line := by
  rw [Position.advance_eq_right fun character member =>
    isLineBreak_of_blank (blank character member)]
  rfl

/-- A gap on a line is no line break of its own. -/
theorem scanFrom (blank : IsBlank text) (position : Position)
    (rest : List Char) :
    Scan.scanFrom position (text ++ rest) =
      Scan.scanFrom (position.advance text) rest := by
  refine Scan.scanFrom_gap blank.isGap (fun ends => ?_) position
  have isReturn := blank '\r' (List.mem_of_getLast? ends)
  exact absurd isReturn (by decide)

end IsBlank

namespace SpacedToken

/-- No gap breaks the line. -/
def OnOneLine (pieces : List SpacedToken) : Prop :=
  ∀ piece ∈ pieces, IsBlank piece.gap

theorem line_finish {pieces : List SpacedToken}
    (oneLine : OnOneLine pieces) (position : Position) :
    (finish position pieces).line = position.line := by
  induction pieces generalizing position with
  | nil => rfl
  | cons piece others inductionHypothesis =>
      have blank := oneLine piece List.mem_cons_self
      have behind := inductionHypothesis
        (fun other member => oneLine other (List.mem_cons_of_mem _ member))
        ((position.advance piece.gap).right
          (Text.units piece.token.text.toList))
      rw [finish, behind, Position.right, blank.line_advance]

theorem line_of_mem_placed {pieces : List SpacedToken}
    (oneLine : OnOneLine pieces) {position : Position} {token : Token}
    (member : token ∈ placed position pieces) :
    token.span.start.line = position.line ∧
      token.span.finish.line = position.line := by
  induction pieces generalizing position with
  | nil => simp [placed] at member
  | cons piece others inductionHypothesis =>
      have blank := oneLine piece List.mem_cons_self
      rcases List.mem_cons.mp member with rfl | isLater
      · exact ⟨blank.line_advance position, blank.line_advance position⟩
      · have behind := inductionHypothesis
          (fun other member => oneLine other (List.mem_cons_of_mem _ member))
          isLater
        rwa [Position.right, blank.line_advance] at behind

end SpacedToken

namespace Layout

/-- A comment as a token. -/
def commentToken (text : String) : Token :=
  ⟨.comment, Span.origin, text⟩

/-- A line of a layout as tokens; a comment at its end is one of them. -/
structure TokenLine where
  depth : Nat
  width : Nat
  tokens : List Token

namespace TokenLine

def blank : TokenLine := ⟨0, 0, []⟩

def ofComment (depth : Nat) (comment : String) : TokenLine :=
  ⟨depth, 0, [commentToken comment]⟩

/-- The tokens behind the first one, each with the gap before it. -/
def later (tokens : List Token) : List SpacedToken :=
  tokens.map fun token =>
    ⟨if token.kind = .comma then [] else [' '], token⟩

/-- The blanks that make the first token wide enough. -/
def padding (width : Nat) (first : Token) : List Char :=
  List.replicate (width - first.text.length) ' '

/-- The blanks before the first token. -/
def indentation (indent : String) (depth : Nat) : List Char :=
  (List.replicate depth indent.toList).flatten

/-- The characters of a line, without its break. -/
def render (indent : String) (line : TokenLine) : List Char :=
  match line.tokens with
  | [] => []
  | first :: others =>
      indentation indent line.depth ++ (first.text.toList ++
        (padding line.width first ++ SpacedToken.text (later others)))

/-- The tokens of a line where they stand. -/
def placed (indent : String) (number : Nat) (line : TokenLine) :
    List Token :=
  match line.tokens with
  | [] => []
  | first :: others =>
      let start :=
        (Position.mk number 0).advance (indentation indent line.depth)
      let finish := start.right (Text.units first.text.toList)
      first.placedAt start ::
        SpacedToken.placed (finish.advance (padding line.width first))
          (later others)

/-- All tokens are cut again, and a comment ends the line. -/
structure IsReadable (line : TokenLine) : Prop where
  isRecut : ∀ token ∈ line.tokens, token.IsRecut
  comment_last : ∀ token ∈ line.tokens.dropLast, token.kind ≠ .comment
  comment_narrow : ∀ first ∈ line.tokens.head?, first.kind = .comment →
    line.width = 0

theorem isBlank_indentation {indent : String} (isIndent : IsIndent indent)
    (depth : Nat) : IsBlank (indentation indent depth) := by
  intro character member
  obtain ⟨copy, isCopy, inside⟩ := List.mem_flatten.mp member
  rw [List.eq_of_mem_replicate isCopy] at inside
  exact isIndent character inside

theorem isBlank_padding (width : Nat) (first : Token) :
    IsBlank (padding width first) :=
  fun _ member => Or.inl (List.eq_of_mem_replicate member)

theorem onOneLine_later (tokens : List Token) :
    SpacedToken.OnOneLine (later tokens) := by
  intro piece member
  obtain ⟨token, _, rfl⟩ := List.mem_map.mp member
  intro character inside
  dsimp only at inside
  split at inside
  · simp at inside
  · exact Or.inl (List.mem_singleton.mp inside)

theorem mem_dropLast_cons {token first : Token} {others : List Token}
    (member : token ∈ others.dropLast) :
    token ∈ (first :: others).dropLast := by
  cases others with
  | nil => simp at member
  | cons next others => exact List.mem_cons_of_mem _ member

/-- The tokens behind the first are kept apart; none of them goes on where the
one before ends. -/
theorem separated_later {tokens : List Token} {rest : List Char}
    (recut : ∀ token ∈ tokens, token.IsRecut)
    (commentLast : ∀ token ∈ tokens.dropLast, token.kind ≠ .comment)
    (stops : ∀ next ∈ rest.head?, Text.isLineBreak next = true) :
    SpacedToken.Separated rest (later tokens) ∧
      ∀ next ∈ (SpacedToken.text (later tokens) ++ rest).head?,
        isWordPart next = false := by
  induction tokens with
  | nil =>
      refine ⟨trivial, fun next member => ?_⟩
      have ends := TokenKind.endsBefore_of_isLineBreak .string stops
      exact ends next member
  | cons token others inductionHypothesis =>
      have tokenRecut := recut token List.mem_cons_self
      obtain ⟨separated, behind⟩ := inductionHypothesis
        (fun other member => recut other (List.mem_cons_of_mem _ member))
        (fun other member => commentLast other (mem_dropLast_cons member))
      refine ⟨⟨?_, tokenRecut, ?_, separated⟩, ?_⟩
      · exact (onOneLine_later (token :: others) _
          List.mem_cons_self).isGap
      · cases others with
        | nil => exact TokenKind.endsBefore_of_isLineBreak _ stops
        | cons next others =>
            exact TokenKind.endsBefore_of_ne_comment
              (commentLast token List.mem_cons_self) behind
      · intro next member
        by_cases isComma : token.kind = .comma
        · refine tokenRecut.isWordPart_mark (by rw [isComma]; decide) ?_
          obtain ⟨first, characters, text, _⟩ := tokenRecut
          simpa [later, SpacedToken.text, isComma, text] using member
        · obtain rfl : ' ' = next := by
            simpa [later, SpacedToken.text, isComma] using member
          rfl

/-- Scanning a line finds its tokens. -/
theorem IsReadable.scanFrom {line : TokenLine} (readable : line.IsReadable)
    {indent : String} (isIndent : IsIndent indent) {newline : List Char}
    (isNewline : IsNewline newline) (number : Nat) (rest : List Char) :
    Scan.scanFrom ⟨number, 0⟩ (line.render indent ++ (newline ++ rest)) =
      (Scan.scanFrom ⟨number + 1, 0⟩ rest).behind
        (line.placed indent number) := by
  obtain ⟨depth, width, tokens⟩ := line
  cases tokens with
  | nil => exact isNewline.scanFrom _ rest
  | cons first others =>
      have recut := readable.isRecut first List.mem_cons_self
      have stops := isNewline.isLineBreak_head rest
      obtain ⟨separated, behind⟩ := separated_later
        (fun token member =>
          readable.isRecut token (List.mem_cons_of_mem _ member))
        (fun token member =>
          readable.comment_last token (mem_dropLast_cons member))
        stops
      have ends : first.kind.EndsBefore (padding width first ++
          (SpacedToken.text (later others) ++ (newline ++ rest))) := by
        by_cases isComment : first.kind = .comment
        · have narrow : width = 0 :=
            readable.comment_narrow first rfl isComment
          have alone : others = [] := by
            by_contra notAlone
            obtain ⟨next, rest, rfl⟩ := List.exists_cons_of_ne_nil notAlone
            exact readable.comment_last first List.mem_cons_self isComment
          simpa [padding, narrow, alone, later, SpacedToken.text] using
            TokenKind.endsBefore_of_isLineBreak first.kind stops
        · refine TokenKind.endsBefore_of_ne_comment isComment ?_
          cases wide : width - first.text.length with
          | zero => simpa [padding, wide] using behind
          | succ more => simp [padding, wide, List.replicate_succ]; rfl
      have line_eq := SpacedToken.line_finish (onOneLine_later others)
      simp only [render, placed, List.append_assoc]
      rw [(isBlank_indentation isIndent depth).scanFrom,
        (recut.isCutBefore ends).scanFrom, (isBlank_padding width first).scanFrom,
        SpacedToken.scanFrom_text separated, isNewline.scanFrom,
        Scan.behind_behind]
      rw [Position.nextLine, line_eq, IsBlank.line_advance
        (isBlank_padding width first), Position.right,
        (isBlank_indentation isIndent depth).line_advance]
      rfl

def renderAll (indent : String) (newline : List Char)
    (lines : List TokenLine) : List Char :=
  lines.flatMap fun line => line.render indent ++ newline

/-- The tokens of some lines where they stand, from a line number on. -/
def placedFrom (indent : String) (number : Nat) :
    List TokenLine → List Token
  | [] => []
  | line :: others =>
      line.placed indent number ++ placedFrom indent (number + 1) others

/-- Scanning lines finds their tokens, and reports nothing. -/
theorem scanFrom_renderAll {indent : String} (isIndent : IsIndent indent)
    {newline : List Char} (isNewline : IsNewline newline)
    {lines : List TokenLine} (readable : ∀ line ∈ lines, line.IsReadable)
    (number : Nat) :
    Scan.scanFrom ⟨number, 0⟩ (renderAll indent newline lines) =
      ⟨placedFrom indent number lines, []⟩ := by
  induction lines generalizing number with
  | nil => simp [renderAll, placedFrom, Scan.scanFrom]
  | cons line others inductionHypothesis =>
      have behind := inductionHypothesis
        (fun other member => readable other (List.mem_cons_of_mem _ member))
        (number + 1)
      have split : renderAll indent newline (line :: others) =
          line.render indent ++
            (newline ++ renderAll indent newline others) := by
        simp [renderAll]
      rw [split, (readable line List.mem_cons_self).scanFrom isIndent
        isNewline, behind]
      rfl

/-- Placing the tokens of a line changes nothing but their places. -/
theorem map_unplaced_placed (indent : String) (number : Nat)
    (line : TokenLine) :
    (line.placed indent number).map Token.unplaced =
      line.tokens.map Token.unplaced := by
  obtain ⟨depth, width, tokens⟩ := line
  cases tokens with
  | nil => rfl
  | cons first others =>
      simp only [placed, List.map_cons, SpacedToken.map_unplaced_placed]
      simp [later, Token.placedAt, Token.unplaced]

theorem map_unplaced_placedFrom (indent : String) (number : Nat)
    (lines : List TokenLine) :
    (placedFrom indent number lines).map Token.unplaced =
      (lines.flatMap TokenLine.tokens).map Token.unplaced := by
  induction lines generalizing number with
  | nil => rfl
  | cons line others inductionHypothesis =>
      rw [placedFrom, List.map_append, map_unplaced_placed,
        inductionHypothesis, List.flatMap_cons, List.map_append]

/-- The tokens of a line stand on one line of the text. -/
theorem line_of_mem_placed {indent : String} (isIndent : IsIndent indent)
    {number : Nat} {line : TokenLine} {token : Token}
    (member : token ∈ line.placed indent number) :
    token.span.start.line = number ∧ token.span.finish.line = number := by
  obtain ⟨depth, width, tokens⟩ := line
  have atStart := (isBlank_indentation isIndent depth).line_advance
    ⟨number, 0⟩
  cases tokens with
  | nil => simp [placed] at member
  | cons first others =>
      rcases List.mem_cons.mp member with rfl | isLater
      · exact ⟨atStart, atStart⟩
      · have behind :=
          SpacedToken.line_of_mem_placed (onOneLine_later others) isLater
        rwa [(isBlank_padding width first).line_advance, Position.right,
          atStart] at behind

theorem le_line_of_mem_placedFrom {indent : String}
    (isIndent : IsIndent indent) {number : Nat} {lines : List TokenLine}
    {token : Token} (member : token ∈ placedFrom indent number lines) :
    number ≤ token.span.start.line := by
  induction lines generalizing number with
  | nil => simp [placedFrom] at member
  | cons line others inductionHypothesis =>
      rcases List.mem_append.mp member with isHere | isLater
      · exact (line_of_mem_placed isIndent isHere).1.ge
      · exact Nat.le_of_succ_le (inductionHypothesis isLater)

end TokenLine

end Layout

end WorkflowLang
