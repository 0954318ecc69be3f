import WorkflowLang.Proofs.Layout.Lines
import WorkflowLang.Proofs.Layout.Settling

/-!
# The printed lines of a layout

A settled line is printed as one line for each comment before it and one for its
tokens.  As lines of tokens these are what scanning reads back: the planned
tokens in their order, and each comment once.
-/

namespace WorkflowLang
namespace Layout

theorem toList_copies (count : Nat) (text : String) :
    (PrintedLine.copies count text).toList =
      (List.replicate count text.toList).flatten := by
  rw [PrintedLine.copies, String.toList_join, List.flatMap_replicate]

theorem toList_render_of_ne {text : String} (nonempty : text ≠ "")
    (indent : String) (depth : Nat) (comment : Option String) :
    (PrintedLine.render indent ⟨depth, text, comment⟩).toList =
      TokenLine.indentation indent depth ++ (text.toList ++
        SpacedToken.text
          (TokenLine.later (comment.map commentToken).toList)) := by
  have isFilled : text.isEmpty = false := by
    rwa [Bool.eq_false_iff, ne_eq, String.isEmpty_iff]
  cases comment with
  | none =>
      simp [PrintedLine.render, isFilled, toList_copies,
        TokenLine.indentation, TokenLine.later, SpacedToken.text]
  | some comment =>
      simp [PrintedLine.render, isFilled, toList_copies,
        TokenLine.indentation, TokenLine.later, SpacedToken.text,
        commentToken]

theorem toList_laterTokenText (tokens : List Token) :
    (String.join (tokens.map laterTokenText)).toList =
      SpacedToken.text (TokenLine.later tokens) := by
  simp only [String.toList_join, TokenLine.later, SpacedToken.text,
    List.flatMap_map]
  congr 1
  funext token
  unfold laterTokenText
  split
  · rfl
  · exact String.toList_append

theorem text_later_append (first second : List Token) :
    SpacedToken.text (TokenLine.later (first ++ second)) =
      SpacedToken.text (TokenLine.later first) ++
        SpacedToken.text (TokenLine.later second) := by
  simp [TokenLine.later, SpacedToken.text]

namespace SettledLine

/-- The lines of tokens that are printed for a settled line. -/
def lines : SettledLine → List TokenLine
  | .blank => [TokenLine.blank]
  | .line depth commentDepth width before planned comment =>
      before.map (TokenLine.ofComment commentDepth) ++
        [⟨depth, width, planned ++ (comment.map commentToken).toList⟩]

def IsFilled : SettledLine → Prop
  | .blank => True
  | .line _ _ _ _ planned _ => planned ≠ []

/-- The tokens and comments of a line are cut again. -/
structure IsSound (line : SettledLine) : Prop where
  isFilled : line.IsFilled
  isRecut : ∀ token ∈ line.contents, token.IsRecut
  notComment : ∀ token ∈ line.contents, token.kind ≠ .comment
  isRecut_comment : ∀ comment ∈ line.comments,
    (commentToken comment).IsRecut

end SettledLine

theorem render_comment {comment : String}
    (recut : (commentToken comment).IsRecut) (indent : String)
    (depth : Nat) :
    ((PrintedLine.ofComment depth comment).render indent).toList =
      (TokenLine.ofComment depth comment).render indent := by
  have nonempty : comment ≠ "" := recut.text_ne_empty
  rw [PrintedLine.ofComment, toList_render_of_ne nonempty]
  simp [TokenLine.render, TokenLine.ofComment, commentToken,
    TokenLine.padding, TokenLine.later, SpacedToken.text]

theorem render_comments {comments : List String}
    (recut : ∀ comment ∈ comments, (commentToken comment).IsRecut)
    (indent : String) (depth : Nat) :
    (comments.map (PrintedLine.ofComment depth)).map
        (fun line => (line.render indent).toList) =
      (comments.map (TokenLine.ofComment depth)).map
        (TokenLine.render indent) := by
  rw [List.map_map, List.map_map]
  exact List.map_congr_left fun comment member =>
    render_comment (recut comment member) indent depth

/-- Printing a settled line gives the characters of its lines of tokens. -/
theorem SettledLine.IsSound.render_printed {line : SettledLine}
    (sound : line.IsSound) (indent : String) :
    line.printed.map (fun printed => (printed.render indent).toList) =
      line.lines.map (TokenLine.render indent) := by
  cases line with
  | blank => simp [printed, lines, PrintedLine.blank, PrintedLine.render,
      TokenLine.blank, TokenLine.render]
  | line depth commentDepth width before planned comment =>
      obtain ⟨first, others, rfl⟩ :=
        List.exists_cons_of_ne_nil sound.isFilled
      have comments := render_comments (fun text member =>
        sound.isRecut_comment text (List.mem_append_left _ member)) indent
          commentDepth
      have nonempty : lineText width (first :: others) ≠ "" := by
        intro isEmpty
        have recut := sound.isRecut first List.mem_cons_self
        refine recut.text_ne_empty ?_
        rw [← String.toList_eq_nil_iff] at isEmpty ⊢
        simp only [lineText, String.toList_append] at isEmpty
        exact (List.append_eq_nil_iff.mp
          (List.append_eq_nil_iff.mp isEmpty).1).1
      have text : (lineText width (first :: others)).toList =
          first.text.toList ++ (TokenLine.padding width first ++
            SpacedToken.text (TokenLine.later others)) := by
        simp only [lineText, String.toList_append, toList_laterTokenText,
          toList_copies, List.append_assoc]
        simp [TokenLine.padding]
      simp only [printed, lines, List.map_append, comments, List.map_cons,
        List.map_nil]
      rw [toList_render_of_ne nonempty, text, TokenLine.render]
      simp [text_later_append]

theorem render_settledLines {settled : List SettledLine}
    (sound : ∀ line ∈ settled, line.IsSound) (indent : String) :
    (settled.flatMap SettledLine.printed).map
        (fun line => (line.render indent).toList) =
      (settled.flatMap SettledLine.lines).map (TokenLine.render indent) := by
  rw [List.map_flatMap, List.map_flatMap]
  exact List.flatMap_congr fun line member =>
    (sound line member).render_printed indent

theorem isReadable_ofComment {comment : String}
    (recut : (commentToken comment).IsRecut) (depth : Nat) :
    (TokenLine.ofComment depth comment).IsReadable where
  isRecut := by
    intro token member
    rwa [List.mem_singleton.mp member]
  comment_last := by simp [TokenLine.ofComment]
  comment_narrow _ _ _ := rfl

/-- The lines printed for a settled line can be scanned. -/
theorem SettledLine.IsSound.isReadable {line : SettledLine}
    (sound : line.IsSound) : ∀ printed ∈ line.lines, printed.IsReadable := by
  cases line with
  | blank =>
      intro printed member
      rw [List.mem_singleton.mp member]
      exact ⟨by simp [TokenLine.blank], by simp [TokenLine.blank],
        by simp [TokenLine.blank]⟩
  | line depth commentDepth width before planned comment =>
      intro printed member
      rcases List.mem_append.mp member with isComment | isLine
      · obtain ⟨text, present, rfl⟩ := List.mem_map.mp isComment
        exact isReadable_ofComment
          (sound.isRecut_comment text (List.mem_append_left _ present)) _
      · rw [List.mem_singleton.mp isLine]
        refine ⟨fun token inside => ?_, fun token inside => ?_,
          fun first isFirst isComment => ?_⟩
        · rcases List.mem_append.mp inside with isPlanned | isLast
          · exact sound.isRecut token isPlanned
          · obtain ⟨text, present, rfl⟩ :=
              Option.map_eq_some_iff.mp (Option.mem_toList.mp isLast)
            refine sound.isRecut_comment text (List.mem_append_right _ ?_)
            exact Option.mem_toList.mpr present
        · refine sound.notComment token ?_
          cases comment with
          | none =>
              rw [Option.map_none, Option.toList_none, List.append_nil]
                at inside
              exact List.dropLast_subset planned inside
          | some text =>
              rwa [Option.map_some, Option.toList_some,
                List.dropLast_concat] at inside
        · obtain ⟨next, others, rfl⟩ :=
            List.exists_cons_of_ne_nil sound.isFilled
          obtain rfl : next = first := by simpa using isFirst
          exact absurd isComment
            (sound.notComment next List.mem_cons_self)

theorem flatMap_tokens_ofComment (depth : Nat) (comments : List String) :
    (comments.map (TokenLine.ofComment depth)).flatMap TokenLine.tokens =
      comments.map commentToken := by
  rw [List.flatMap_map]
  exact List.map_eq_flatMap.symm

theorem withoutComments_map_commentToken (comments : List String) :
    Token.withoutComments (comments.map commentToken) = [] := by
  induction comments with
  | nil => rfl
  | cons comment others inductionHypothesis =>
      rwa [List.map_cons, Token.withoutComments_comment rfl]

theorem commentTexts_map_commentToken (comments : List String) :
    Token.commentTexts (comments.map commentToken) = comments := by
  induction comments with
  | nil => rfl
  | cons comment others inductionHypothesis =>
      rw [List.map_cons, Token.commentTexts_comment rfl,
        inductionHypothesis]
      rfl

theorem toList_map_commentToken (comment : Option String) :
    (comment.map commentToken).toList = comment.toList.map commentToken :=
  Option.toList_map ..

theorem tokens_lines {line : SettledLine}
    (notComment : ∀ token ∈ line.contents, token.kind ≠ .comment) :
    Token.withoutComments (line.lines.flatMap TokenLine.tokens) =
        line.contents ∧
      Token.commentTexts (line.lines.flatMap TokenLine.tokens) =
        line.comments := by
  cases line with
  | blank => exact ⟨rfl, rfl⟩
  | line depth commentDepth width before planned comment =>
      have plain : ∀ token ∈ planned, token.kind ≠ .comment := notComment
      simp only [SettledLine.lines, List.flatMap_append,
        flatMap_tokens_ofComment, toList_map_commentToken,
        List.flatMap_singleton, Token.withoutComments_append,
        Token.commentTexts_append, withoutComments_map_commentToken,
        commentTexts_map_commentToken, Token.withoutComments_eq_self plain,
        Token.commentTexts_eq_nil plain, List.nil_append, List.append_nil]
      exact ⟨rfl, rfl⟩

theorem tokens_settledLines {settled : List SettledLine}
    (sound : ∀ line ∈ settled, line.IsSound) :
    Token.withoutComments ((settled.flatMap SettledLine.lines).flatMap
        TokenLine.tokens) = settled.flatMap SettledLine.contents ∧
      Token.commentTexts ((settled.flatMap SettledLine.lines).flatMap
        TokenLine.tokens) = settled.flatMap SettledLine.comments := by
  induction settled with
  | nil => exact ⟨rfl, rfl⟩
  | cons line others inductionHypothesis =>
      obtain ⟨contents, comments⟩ :=
        tokens_lines (sound line List.mem_cons_self).notComment
      obtain ⟨otherContents, otherComments⟩ := inductionHypothesis
        fun other member => sound other (List.mem_cons_of_mem _ member)
      simp only [List.flatMap_cons, List.flatMap_append,
        Token.withoutComments_append, Token.commentTexts_append, contents,
        comments, otherContents, otherComments, and_self]

end Layout

end WorkflowLang
