import WorkflowLang.Token

/-!
# Comments beside tokens

Comments are not part of the syntax tree.  To keep them when a document is laid
out anew, each comment is attached to a token: a comment that starts on the line
where the token before it ends, with nothing between them, trails that token;
all others lead the next token.  Comments behind the last token that do not
trail it belong to the document.
-/

namespace WorkflowLang
namespace Layout

/-- A token with the comments before it and the comment right behind it. -/
structure CommentedToken where
  token : Token
  leading : List String
  trailing : Option String
  deriving DecidableEq, Inhabited, Repr

/-- The tokens of a text with their comments, and the comments at its end. -/
structure CommentedText where
  tokens : List CommentedToken
  closing : List String
  deriving DecidableEq, Inhabited, Repr

namespace CommentedText

def cons (token : CommentedToken) (text : CommentedText) : CommentedText :=
  ⟨token :: text.tokens, text.closing⟩

/-- Attaches comments to tokens, when the comments `pending` wait for the next
token. -/
def attach (pending : List String) : List Token → CommentedText
  | [] => ⟨[], pending⟩
  | [token] =>
      if token.kind = .comment then ⟨[], pending ++ [token.text]⟩
      else ⟨[⟨token, pending, none⟩], []⟩
  | token :: next :: rest =>
      if token.kind = .comment then
        attach (pending ++ [token.text]) (next :: rest)
      else if next.kind = .comment ∧
          token.span.finish.line = next.span.start.line then
        cons ⟨token, pending, some next.text⟩ (attach [] rest)
      else cons ⟨token, pending, none⟩ (attach [] (next :: rest))

def ofTokens (tokens : List Token) : CommentedText :=
  attach [] tokens

end CommentedText
end Layout
end WorkflowLang
