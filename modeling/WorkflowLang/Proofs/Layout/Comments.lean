import WorkflowLang.Layout.Comments

/-!
# No comment is lost

Attaching comments to tokens keeps all tokens and all comments, in the order of
the text.
-/

namespace WorkflowLang

namespace Token

/-- Tokens without the comments among them. -/
def withoutComments (tokens : List Token) : List Token :=
  tokens.filter fun token => token.kind != .comment

/-- The texts of the comments among some tokens. -/
def commentTexts (tokens : List Token) : List String :=
  (tokens.filter fun token => token.kind == .comment).map Token.text

@[simp] theorem withoutComments_nil : withoutComments [] = [] := rfl

@[simp] theorem commentTexts_nil : commentTexts [] = [] := rfl

theorem withoutComments_comment {comment : Token}
    (isComment : comment.kind = .comment) (others : List Token) :
    withoutComments (comment :: others) = withoutComments others := by
  simp [withoutComments, isComment]

theorem withoutComments_cons {token : Token}
    (notComment : token.kind ≠ .comment) (others : List Token) :
    withoutComments (token :: others) = token :: withoutComments others := by
  simp [withoutComments, notComment]

theorem commentTexts_comment {comment : Token}
    (isComment : comment.kind = .comment) (others : List Token) :
    commentTexts (comment :: others) =
      comment.text :: commentTexts others := by
  simp [commentTexts, isComment]

theorem commentTexts_cons {token : Token}
    (notComment : token.kind ≠ .comment) (others : List Token) :
    commentTexts (token :: others) = commentTexts others := by
  simp [commentTexts, notComment]

@[simp] theorem withoutComments_append (first second : List Token) :
    withoutComments (first ++ second) =
      withoutComments first ++ withoutComments second := by
  simp [withoutComments]

@[simp] theorem commentTexts_append (first second : List Token) :
    commentTexts (first ++ second) =
      commentTexts first ++ commentTexts second := by
  simp [commentTexts]

theorem withoutComments_eq_self {tokens : List Token}
    (none : ∀ token ∈ tokens, token.kind ≠ .comment) :
    withoutComments tokens = tokens := by
  refine List.filter_eq_self.mpr fun token member => ?_
  simpa using none token member

theorem commentTexts_eq_nil {tokens : List Token}
    (none : ∀ token ∈ tokens, token.kind ≠ .comment) :
    commentTexts tokens = [] := by
  rw [commentTexts, List.map_eq_nil_iff, List.filter_eq_nil_iff]
  intro token member
  simpa using none token member

end Token

namespace Layout

def CommentedToken.comments (token : CommentedToken) : List String :=
  token.leading ++ token.trailing.toList

namespace CommentedText

def comments (text : CommentedText) : List String :=
  text.tokens.flatMap CommentedToken.comments ++ text.closing

@[simp] theorem tokens_cons (token : CommentedToken) (text : CommentedText) :
    (cons token text).tokens = token :: text.tokens := rfl

@[simp] theorem closing_cons (token : CommentedToken)
    (text : CommentedText) : (cons token text).closing = text.closing := rfl

@[simp] theorem comments_cons (token : CommentedToken)
    (text : CommentedText) :
    (cons token text).comments = token.comments ++ text.comments := by
  simp [comments, cons]

theorem attach_comment (pending : List String) {comment : Token}
    (isComment : comment.kind = .comment) (rest : List Token) :
    attach pending (comment :: rest) =
      attach (pending ++ [comment.text]) rest := by
  cases rest with
  | nil => simp [attach, isComment]
  | cons next rest => simp [attach, isComment]

/-- A token takes the comments that wait, and none behind it on a later line. -/
theorem attach_token (pending : List String) {token : Token}
    (notComment : token.kind ≠ .comment) {rest : List Token}
    (apart : ∀ next ∈ rest.head?, next.kind = .comment →
      token.span.finish.line ≠ next.span.start.line) :
    attach pending (token :: rest) =
      cons ⟨token, pending, none⟩ (attach [] rest) := by
  cases rest with
  | nil => simp [attach, notComment, cons]
  | cons next rest =>
      have noTrail : ¬(next.kind = .comment ∧
          token.span.finish.line = next.span.start.line) :=
        fun trails => apart next rfl trails.1 trails.2
      rw [attach, if_neg notComment, if_neg noTrail]

/-- A comment behind a token on its line trails it. -/
theorem attach_trailed (pending : List String) {token comment : Token}
    (notComment : token.kind ≠ .comment)
    (isComment : comment.kind = .comment)
    (sameLine : token.span.finish.line = comment.span.start.line)
    (rest : List Token) :
    attach pending (token :: comment :: rest) =
      cons ⟨token, pending, some comment.text⟩ (attach [] rest) := by
  rw [attach, if_neg notComment, if_pos ⟨isComment, sameLine⟩]

/-- All tokens but the comments remain. -/
theorem map_token_attach (pending : List String) (tokens : List Token) :
    (attach pending tokens).tokens.map CommentedToken.token =
      Token.withoutComments tokens := by
  fun_induction attach pending tokens with
  | case1 => rfl
  | case2 pending token isComment =>
      rw [Token.withoutComments_comment isComment]
      rfl
  | case3 pending token notComment =>
      rw [Token.withoutComments_cons notComment]
      rfl
  | case4 pending token next rest isComment inductionHypothesis =>
      rw [Token.withoutComments_comment isComment, inductionHypothesis]
  | case5 pending token next rest notComment trails inductionHypothesis =>
      rw [Token.withoutComments_cons notComment,
        Token.withoutComments_comment trails.1, ← inductionHypothesis]
      rfl
  | case6 pending token next rest notComment noTrail inductionHypothesis =>
      rw [Token.withoutComments_cons notComment, ← inductionHypothesis]
      rfl

/-- All comments remain, in their order. -/
theorem comments_attach (pending : List String) (tokens : List Token) :
    (attach pending tokens).comments =
      pending ++ Token.commentTexts tokens := by
  fun_induction attach pending tokens with
  | case1 => simp [comments]
  | case2 pending token isComment =>
      simp [comments, Token.commentTexts_comment isComment]
  | case3 pending token notComment =>
      simp [comments, CommentedToken.comments,
        Token.commentTexts_cons notComment]
  | case4 pending token next rest isComment inductionHypothesis =>
      rw [Token.commentTexts_comment isComment, inductionHypothesis,
        List.append_assoc, List.singleton_append]
  | case5 pending token next rest notComment trails inductionHypothesis =>
      rw [Token.commentTexts_cons notComment,
        Token.commentTexts_comment trails.1, comments_cons,
        inductionHypothesis]
      simp [CommentedToken.comments]
  | case6 pending token next rest notComment noTrail inductionHypothesis =>
      rw [Token.commentTexts_cons notComment, comments_cons,
        inductionHypothesis]
      simp [CommentedToken.comments]

end CommentedText

end Layout

end WorkflowLang
