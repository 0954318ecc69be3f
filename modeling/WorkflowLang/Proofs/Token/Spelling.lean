import WorkflowLang.Proofs.Token.Order

/-!
# Kinds with one spelling

Keywords and punctuation marks are spelled in one way only.  A token of such a kind
has the spelling as its text, whatever the text around it is
(`Scan.text_eq_description`).
-/

namespace WorkflowLang

namespace TokenKind

/-- Names, literals, comments and what is not in the vocabulary have spellings of
their own. -/
def isSpelled : TokenKind → Bool
  | .identifier | .comment | .integer | .string | .missing
  | .unrecognized => false
  | _ => true

theorem description_ofWord {word : String}
    (spelled : (ofWord word).isSpelled = true) :
    (ofWord word).description = word := by
  unfold ofWord at spelled ⊢
  cases found : keywords.find?
      fun keyword => keyword.description == word with
  | none =>
      rw [found] at spelled
      exact absurd spelled (by decide)
  | some keyword =>
      have spells := List.find?_some found
      exact beq_iff_eq.mp spells

end TokenKind

theorem description_of_mark {character : Char} {kind : TokenKind}
    (mark : punctuationKind? character = some kind) :
    kind.description = String.ofList [character] := by
  unfold punctuationKind? at mark
  split at mark
  all_goals first
    | obtain rfl := Option.some.inj mark
      rfl
    | contradiction

theorem Lexeme.description_cut {position : Position} {character : Char}
    {rest : List Char}
    (spelled : (cut position character rest).kind.isSpelled = true) :
    (cut position character rest).kind.description =
      String.ofList (cut position character rest).characters := by
  cases mark : punctuationKind? character with
  | some kind =>
      rw [cut_of_mark mark]
      exact description_of_mark mark
  | none =>
      by_cases isComment :
          character = '#' ∨ (character = '/' ∧ rest.head? = some '/')
      · rw [cut_of_comment isComment] at spelled
        contradiction
      by_cases isQuote : character = '"'
      · rw [isQuote, cut_of_quote] at spelled
        contradiction
      by_cases isDigit : character.isDigit = true
      · rw [cut_of_isDigit isDigit] at spelled
        contradiction
      by_cases isStart : isWordStart character = true
      · rw [cut_of_isWordStart isStart] at spelled ⊢
        exact TokenKind.description_ofWord spelled
      · simp [cut, mark, isComment, isQuote, isDigit, isStart,
          TokenKind.isSpelled] at spelled

theorem Scan.text_eq_description {position : Position} {text : List Char}
    {token : Token} (member : token ∈ (scanFrom position text).tokens)
    (spelled : token.kind.isSpelled = true) :
    token.text = token.kind.description := by
  obtain ⟨place, character, rest, -, rfl, -⟩ := exists_cut_of_mem member
  exact (Lexeme.description_cut spelled).symm

end WorkflowLang
