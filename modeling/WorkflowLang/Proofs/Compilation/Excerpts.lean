import WorkflowLang.Proofs.Compilation.Reports
import WorkflowLang.Proofs.Text.Excerpt
import WorkflowLang.Proofs.Token.Reports
import WorkflowLang.Proofs.Tree.Accounting
import WorkflowLang.Proofs.Tree.Standing

/-!
# Excerpts of diagnostics

Scanning reports inside tokens, and every later stage reports at the span of a
token.  A token stands in the text where its span says, so the characters that a
diagnostic is about stand on one line, and the excerpt of the diagnostic has its
carets under these (`Compilation.excerpts_underline`).
-/

namespace WorkflowLang

theorem Account.span_report? {account : Account} {diagnostic : Diagnostic}
    (reported : account.report? = some diagnostic) :
    diagnostic.span = account.token.span := by
  unfold report? at reported
  split at reported
  · contradiction
  · rw [← Option.some.inj reported]
  · rw [← Option.some.inj reported]

/-- Parsing reports at tokens of the input. -/
theorem Parse.span_mem_of_mem_diagnostics {tokens : List Token}
    {diagnostic : Diagnostic}
    (member : diagnostic ∈ (ofTokens tokens).diagnostics) :
    diagnostic.span ∈ tokens.map Token.span := by
  obtain ⟨accounts, tokensEq, -, reportsEq⟩ := exists_accountsFor tokens
  rw [← reportsEq] at member
  obtain ⟨account, isAccount, reported⟩ := List.mem_filterMap.mp member
  have isToken : account.token ∈ grammatical tokens :=
    tokensEq ▸ List.mem_map_of_mem isAccount
  rw [Account.span_report? reported]
  exact List.mem_map_of_mem (List.mem_of_mem_filter isToken)

namespace Compilation

/-- Every diagnostic is about some characters of a token. -/
theorem exists_hasPart {text : String} {diagnostic : Diagnostic}
    (member : diagnostic ∈ (ofText text).diagnostics) :
    ∃ token ∈ (ofText text).tokens, token.HasPart diagnostic.span := by
  have atToken (placed : diagnostic.span ∈
      (ofText text).tokens.map Token.span) :
      ∃ token ∈ (ofText text).tokens, token.HasPart diagnostic.span := by
    obtain ⟨token, isToken, sameSpan⟩ := List.mem_map.mp placed
    exact ⟨token, isToken, sameSpan ▸ Scan.hasPart_of_mem isToken⟩
  have placed : Token.AllAt ((ofText text).tokens.map Token.span)
      (ofText text).tree.tokens :=
    fun _ isToken => Parse.span_mem_of_mem_tree isToken
  rcases List.mem_append.mp member with member | checked
  · rcases List.mem_append.mp member with member | bound
    · rcases List.mem_append.mp member with scanned | parsed
      · exact Scan.exists_hasPart _ _ diagnostic scanned
      · exact atToken (Parse.span_mem_of_mem_diagnostics parsed)
    · exact atToken
        (SyntaxTree.allFrom_bindingDiagnostics placed _ bound).span_mem
  · exact atToken (Document.allFrom_checkDiagnostics
      (Document.standsAt_ofTree placed) _ checked).span_mem

end Compilation

/-- A token stands in the text where its span says. -/
theorem Scan.exists_surroundings {text : String} {token : Token}
    (member : token ∈ (ofText text).tokens) :
    ∃ front back, front ++ token.text.toList ++ back = text.toList ∧
      Text.endPosition front = token.span.start ∧
      ∀ character ∈ token.text.toList,
        Text.isLineBreak character = false := by
  obtain ⟨pieces, tokens, cuts⟩ := exists_cuts_ofText text
  obtain ⟨closing, -, whole⟩ := cuts.exists_closing
  rw [← tokens] at member
  obtain ⟨piece, isPiece, rfl⟩ := List.mem_map.mp member
  obtain ⟨before, behind, rfl⟩ := List.append_of_mem isPiece
  have stands := cuts.standsBehind rfl
  refine ⟨SpacedToken.text before ++ piece.gap,
    SpacedToken.text behind ++ closing, ?_, ?_, stands.oneLine⟩
  · rw [← whole]
    simp [SpacedToken.text]
  · simpa using stands.start_eq.symm

/-- A span that covers a part of a token lies in the span of the token. -/
theorem Token.HasPart.covers {token : Token} {span : Span}
    (part : token.HasPart span)
    (finish : token.span.finish =
      token.span.start.right (Text.units token.text.toList)) :
    token.span.Covers span := by
  obtain ⟨before, marked, after, whole, -, rfl⟩ := part
  refine ⟨Position.le_right _ _, ?_⟩
  rw [finish, ← whole, Text.units_append _ after]
  exact Or.inr ⟨rfl, Nat.add_le_add_left (Nat.le_add_right _ _) _⟩

/-- What a span covers of a token is a stretch of a line. -/
theorem Token.HasPart.exists_stretch {text : String} {token : Token}
    (member : token ∈ (Scan.ofText text).tokens) {span : Span}
    (part : token.HasPart span) :
    Nonempty (Text.Stretch text.toList span) := by
  obtain ⟨front, back, whole, start, oneLine⟩ :=
    Scan.exists_surroundings member
  obtain ⟨before, marked, after, characters, nonempty, rfl⟩ := part
  rw [← characters, List.forall_mem_append] at oneLine
  have beforeOneLine := (List.forall_mem_append.mp oneLine.1).1
  have begins : Text.endPosition (front ++ before) =
      token.span.start.right (Text.units before) := by
    rw [Text.endPosition_append_right beforeOneLine, start]
  have ends : Text.endPosition (front ++ before ++ marked) =
      token.span.start.right (Text.units (before ++ marked)) := by
    rw [List.append_assoc, Text.endPosition_append_right oneLine.1, start]
  have split : front ++ before ++ marked ++ (after ++ back) =
      text.toList := by
    rw [← whole, ← characters]
    simp only [List.append_assoc]
  rw [← begins, ← ends, ← split]
  exact Text.exists_stretch nonempty (List.forall_mem_append.mp oneLine.1).2

/-- What is said of a diagnostic by its span and its excerpts: it is about some
characters of one line inside a token, and the text of every excerpt has the lines
around that line behind their numbers, which end in one column, and one caret under
each of these characters. -/
structure Diagnostic.IsUnderlined (text : String) (diagnostic : Diagnostic) :
    Prop where
  one_line : diagnostic.span.start.line = diagnostic.span.finish.line
  width_pos : diagnostic.span.start.column < diagnostic.span.finish.column
  in_token : ∃ token ∈ (Compilation.ofText text).tokens,
    token.span.Covers diagnostic.span
  excerpt : ∃ stretch : Text.Stretch text.toList diagnostic.span,
    ∀ context, diagnostic.span.start.line + context < UInt64.size →
      Excerpt.textAround text.toList diagnostic.span context =
          .ok (stretch.shown context) ∧
        stretch.IsAligned context

namespace Compilation

/-- Every excerpt of a diagnostic underlines what the diagnostic is about. -/
theorem excerpts_underline {text : String} {diagnostic : Diagnostic}
    (member : diagnostic ∈ (ofText text).diagnostics) :
    diagnostic.IsUnderlined text := by
  obtain ⟨token, isToken, part⟩ := exists_hasPart member
  obtain ⟨stretch⟩ := part.exists_stretch isToken
  constructor
  · rw [stretch.start_eq, stretch.finish_eq]
  · exact stretch.column_lt
  · exact ⟨token, isToken, part.covers (Scan.finish_of_mem isToken)⟩
  · exact ⟨stretch, fun context fits => ⟨Excerpt.textAround_eq stretch fits,
      stretch.isAligned context⟩⟩

/-- An escape that is not supported, behind a character of two columns on a line
between carriage returns. -/
def oddEscape : Diagnostic :=
  ⟨.unsupportedEscape 'q', ⟨⟨1, 4⟩, ⟨1, 5⟩⟩⟩

theorem excerpts_underline_oddEscape :
    oddEscape ∈ (ofText "version\r\"😀\\q\"\r\n").diagnostics ∧
      oddEscape.IsUnderlined "version\r\"😀\\q\"\r\n" := by
  have scanned : oddEscape ∈
      (Scan.ofText "version\r\"😀\\q\"\r\n").diagnostics := by
    decide +kernel
  have member : oddEscape ∈
      (ofText "version\r\"😀\\q\"\r\n").diagnostics := by
    simp only [ofText, List.mem_append]
    exact Or.inl (Or.inl (Or.inl scanned))
  exact ⟨member, excerpts_underline member⟩

example :
    Excerpt.textAround "version\r\"😀\\q\"\r\n".toList
        ⟨⟨1, 4⟩, ⟨1, 5⟩⟩ 1 =
      .ok "  1 | version\n  2 | \"😀\\q\"\n    |    ^\n" := by
  decide +kernel

end Compilation

end WorkflowLang
