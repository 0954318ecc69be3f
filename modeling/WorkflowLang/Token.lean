import WorkflowLang.Token.Kind
import WorkflowLang.Text.Position

/-!
# Tokens

A token is a piece of source text with its kind and its place.  A token the
grammar asked for in vain is represented by an empty token that stands where its
absence was noticed.
-/

namespace WorkflowLang

structure Token where
  kind : TokenKind
  span : Span
  text : String
  deriving DecidableEq, Inhabited, Repr

namespace Token

/-- The stand-in for a token that was expected at `span`. -/
def missing (span : Span) : Token := ⟨.missing, span, ""⟩

def isMissing (token : Token) : Bool :=
  token.kind == .missing

@[simp] theorem isMissing_missing (span : Span) :
    (missing span).isMissing = true := rfl

def coverSpan (tokens : List Token) : Span :=
  Span.cover (tokens.map (·.span))

end Token
end WorkflowLang
