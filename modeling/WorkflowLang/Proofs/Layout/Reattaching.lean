import WorkflowLang.Proofs.Layout.Sheet

/-!
# Attaching the comments of a layout

In a layout every comment stands on a line before the tokens it belongs to, or
at the end of their line.  So when the layout is read, each comment is attached
where it settled (`besides_attach_lines`), and the comments behind the last line
of tokens close the text.
-/

namespace WorkflowLang
namespace Layout

namespace CommentedText

/-- Comments wait for the next token. -/
theorem attach_comments {comments : List Token}
    (all : ∀ comment ∈ comments, comment.kind = .comment)
    (pending : List String) (rest : List Token) :
    attach pending (comments ++ rest) =
      attach (pending ++ comments.map Token.text) rest := by
  induction comments generalizing pending with
  | nil => simp
  | cons comment others inductionHypothesis =>
      rw [List.cons_append, attach_comment pending
        (all comment List.mem_cons_self), inductionHypothesis fun other member =>
          all other (List.mem_cons_of_mem _ member)]
      simp

end CommentedText

open CommentedText

theorem map_unplaced_cons_eq {placed : List Token} {token : Token}
    {others : List Token}
    (same : placed.map Token.unplaced =
      (token :: others).map Token.unplaced) :
    ∃ first rest, placed = first :: rest ∧ first.kind = token.kind ∧
      first.text = token.text ∧
        rest.map Token.unplaced = others.map Token.unplaced := by
  cases placed with
  | nil => simp at same
  | cons first rest =>
      rw [List.map_cons, List.map_cons, List.cons.injEq,
        Token.unplaced_eq_unplaced_iff] at same
      exact ⟨first, rest, rfl, same.1.1, same.1.2, same.2⟩

/-- The last token of a line takes the comment at the end of the line. -/
theorem attach_last {token : Token} (plain : token.kind ≠ .comment)
    {comment : Option String} {placed rest : List Token}
    (same : placed.map Token.unplaced =
      (comment.map commentToken).toList.map Token.unplaced)
    (onLine : ∀ other ∈ placed,
      token.span.finish.line = other.span.start.line)
    (below : ∀ other ∈ rest,
      token.span.finish.line < other.span.start.line)
    (before : List String) :
    (attach before (token :: (placed ++ rest))).tokens.map
        CommentedToken.besides =
        (before, comment) ::
          (attach [] rest).tokens.map CommentedToken.besides ∧
      (attach before (token :: (placed ++ rest))).closing =
        (attach [] rest).closing := by
  cases comment with
  | none =>
      obtain rfl : placed = [] := by simpa using same
      rw [List.nil_append, attach_token before plain]
      · exact ⟨rfl, rfl⟩
      · intro next head _ sameLine
        have isBelow := below next (List.mem_of_mem_head? head)
        omega
  | some text =>
      obtain ⟨last, nothing, rfl, lastKind, lastText, isLast⟩ :=
        map_unplaced_cons_eq same
      obtain rfl : nothing = [] := by simpa using isLast
      rw [List.singleton_append, attach_trailed before plain lastKind
        (onLine last List.mem_cons_self), lastText]
      exact ⟨rfl, rfl⟩

/-- The tokens of a line take the comments before the line and at its end. -/
theorem attach_line {planned : List Token} (filled : planned ≠ [])
    (plain : ∀ token ∈ planned, token.kind ≠ .comment)
    {comment : Option String} {placed rest : List Token} {number : Nat}
    (same : placed.map Token.unplaced =
      (planned ++ (comment.map commentToken).toList).map Token.unplaced)
    (onLine : ∀ token ∈ placed, token.span.start.line = number ∧
      token.span.finish.line = number)
    (below : ∀ token ∈ rest, number < token.span.start.line)
    (before : List String) :
    (attach before (placed ++ rest)).tokens.map CommentedToken.besides =
        besidesOf before comment planned ++
          (attach [] rest).tokens.map CommentedToken.besides ∧
      (attach before (placed ++ rest)).closing =
        (attach [] rest).closing := by
  induction planned generalizing placed before with
  | nil => exact absurd rfl filled
  | cons token others inductionHypothesis =>
      obtain ⟨first, behind, rfl, firstKind, _, sameBehind⟩ :=
        map_unplaced_cons_eq same
      have firstLine := (onLine first List.mem_cons_self).2
      have firstPlain : first.kind ≠ .comment := by
        rw [firstKind]
        exact plain token List.mem_cons_self
      have behindOnLine : ∀ other ∈ behind,
          other.span.start.line = number ∧ other.span.finish.line = number :=
        fun other member => onLine other (List.mem_cons_of_mem _ member)
      cases others with
      | nil =>
          refine attach_last firstPlain sameBehind (fun other member => ?_)
            (fun other member => ?_) before
          · rw [firstLine, (behindOnLine other member).1]
          · rw [firstLine]
            exact below other member
      | cons next others =>
          obtain ⟨second, later, rfl, secondKind, _, _⟩ :=
            map_unplaced_cons_eq sameBehind
          have secondPlain : second.kind ≠ .comment := by
            rw [secondKind]
            exact plain next (by simp)
          rw [List.cons_append, attach_token before firstPlain]
          · obtain ⟨tokens, closing⟩ := inductionHypothesis (by simp)
              (fun other member => plain other (List.mem_cons_of_mem _ member))
              sameBehind behindOnLine []
            refine ⟨?_, closing⟩
            rw [tokens_cons, List.map_cons, tokens]
            rfl
          · intro head isHead isComment
            obtain rfl : second = head := by simpa using isHead
            exact absurd isComment secondPlain

theorem placedFrom_append (indent : String) (number : Nat)
    (first second : List TokenLine) :
    TokenLine.placedFrom indent number (first ++ second) =
      TokenLine.placedFrom indent number first ++
        TokenLine.placedFrom indent (number + first.length) second := by
  induction first generalizing number with
  | nil => rfl
  | cons line others inductionHypothesis =>
      simp only [List.cons_append, TokenLine.placedFrom, List.append_assoc,
        inductionHypothesis, List.length_cons]
      rw [Nat.add_right_comm, Nat.add_assoc]

theorem placedFrom_comments (indent : String) (number depth : Nat)
    (comments : List String) :
    (∀ token ∈ TokenLine.placedFrom indent number
        (comments.map (TokenLine.ofComment depth)),
      token.kind = .comment) ∧
      (TokenLine.placedFrom indent number
        (comments.map (TokenLine.ofComment depth))).map Token.text =
          comments := by
  induction comments generalizing number with
  | nil => exact ⟨by simp [TokenLine.placedFrom], rfl⟩
  | cons comment others inductionHypothesis =>
      obtain ⟨kinds, texts⟩ := inductionHypothesis (number + 1)
      refine ⟨fun token member => ?_, congrArg (comment :: ·) texts⟩
      rcases List.mem_cons.mp member with rfl | isLater
      · rfl
      · exact kinds token isLater

/-- The comments of one line are attached where they settled. -/
theorem attach_settledLine {indent : String} (isIndent : IsIndent indent)
    {line : SettledLine} (sound : line.IsSound) {number : Nat}
    {rest : List Token}
    (below : ∀ token ∈ rest,
      number + line.lines.length ≤ token.span.start.line) :
    (attach [] (TokenLine.placedFrom indent number line.lines ++
        rest)).tokens.map CommentedToken.besides =
        line.besides ++ (attach [] rest).tokens.map CommentedToken.besides ∧
      (attach [] (TokenLine.placedFrom indent number line.lines ++
        rest)).closing = (attach [] rest).closing := by
  cases line with
  | blank => exact ⟨rfl, rfl⟩
  | line depth commentDepth width before planned comment =>
      obtain ⟨kinds, texts⟩ :=
        placedFrom_comments indent number commentDepth before
      rw [SettledLine.lines, placedFrom_append, List.append_assoc,
        attach_comments kinds, texts, List.nil_append, List.length_map]
      have alone : TokenLine.placedFrom indent (number + before.length)
          [⟨depth, width, planned ++ (comment.map commentToken).toList⟩] =
            TokenLine.placed indent (number + before.length)
              ⟨depth, width,
                planned ++ (comment.map commentToken).toList⟩ :=
        List.append_nil _
      rw [alone]
      refine attach_line sound.isFilled sound.notComment
        (TokenLine.map_unplaced_placed _ _ _)
        (fun token member => TokenLine.line_of_mem_placed isIndent member)
        (fun token member => ?_) before
      have isBelow := below token member
      simp only [SettledLine.lines, List.length_append, List.length_map,
        List.length_singleton] at isBelow
      omega

theorem besides_attach_lines {indent : String} (isIndent : IsIndent indent)
    {settled : List SettledLine} (sound : ∀ line ∈ settled, line.IsSound)
    {number : Nat} {rest : List Token}
    (below : ∀ token ∈ rest, number +
      (settled.flatMap SettledLine.lines).length ≤ token.span.start.line) :
    (attach [] (TokenLine.placedFrom indent number
        (settled.flatMap SettledLine.lines) ++ rest)).tokens.map
          CommentedToken.besides =
        settled.flatMap SettledLine.besides ++
          (attach [] rest).tokens.map CommentedToken.besides ∧
      (attach [] (TokenLine.placedFrom indent number
        (settled.flatMap SettledLine.lines) ++ rest)).closing =
          (attach [] rest).closing := by
  induction settled generalizing number with
  | nil => exact ⟨rfl, rfl⟩
  | cons line others inductionHypothesis =>
      have othersBelow : ∀ token ∈ rest, number + line.lines.length +
          (others.flatMap SettledLine.lines).length ≤
            token.span.start.line := by
        intro token member
        have isBelow := below token member
        rw [List.flatMap_cons, List.length_append] at isBelow
        omega
      obtain ⟨tokens, closing⟩ := inductionHypothesis
        (fun other member => sound other (List.mem_cons_of_mem _ member))
        othersBelow
      rw [List.flatMap_cons, placedFrom_append, List.append_assoc,
        List.flatMap_cons, List.append_assoc, ← tokens, ← closing]
      refine attach_settledLine isIndent (sound line List.mem_cons_self)
        fun token member => ?_
      rcases List.mem_append.mp member with isOther | isRest
      · exact TokenLine.le_line_of_mem_placedFrom isIndent isOther
      · have isBelow := othersBelow token isRest
        omega

end Layout

end WorkflowLang
