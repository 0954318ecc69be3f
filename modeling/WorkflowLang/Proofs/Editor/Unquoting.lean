import WorkflowLang.Proofs.Editor.StringEdits
import WorkflowLang.Proofs.Token.Faults

/-!
# Where a string ends

Whether a string has a closing quote is found out three times.  Scanning reads its
escapes and reports the string when there is none.  Un-quoting its text and looking
for the place between its quotes only ask whether the last character is a quote.  The
two always agree with each other, and with the scan unless that last quote is an
escaped one: then the string is reported as unterminated, and its quote is dropped all
the same (`Compilation.trimsQuote`).
-/

namespace WorkflowLang

/-! ## The last character -/

namespace StringPiece

def last : StringPiece → Char
  | .escape escaped => escaped
  | .plain character => character

theorem getLast?_flatMap (pieces : List StringPiece) :
    (pieces.flatMap characters).getLast? = pieces.getLast?.map last := by
  rcases List.eq_nil_or_concat pieces with rfl | ⟨front, piece, rfl⟩
  · rfl
  · have nonempty : piece.characters ≠ [] := by
      cases piece <;> exact List.cons_ne_nil _ _
    rw [List.concat_eq_append, List.flatMap_append, List.flatMap_singleton,
      List.getLast?_append_of_ne_nil _ nonempty, List.getLast?_concat]
    cases piece <;> rfl

/-- The reports about the pieces of a string say nothing about its end. -/
theorem unterminated_notMem_faults (span : Span) (place : Position)
    (pieces : List StringPiece) :
    ⟨.unterminatedString, span⟩ ∉ faults place pieces := by
  induction pieces generalizing place with
  | nil => exact List.not_mem_nil
  | cons piece others inductionHypothesis =>
      rw [faults, List.mem_append, not_or]
      refine ⟨?_, inductionHypothesis _⟩
      cases piece with
      | escape escaped =>
          rw [fault?]
          split <;> simp
      | plain character =>
          rw [fault?]
          split <;> simp

end StringPiece

namespace Token

/-- The last character of a string is a quote that a backslash takes with it. -/
def EndsInEscapedQuote (token : Token) : Prop :=
  token.pieces.getLast? = some (.escape '"')

variable {token : Token}

theorem unterminated_mem_faults_iff {span : Span} :
    ⟨.unterminatedString, span⟩ ∈ token.faults ↔
      token.kind = .string ∧ ¬token.IsClosed ∧ span = token.span := by
  unfold faults
  split
  · rename_i isUnrecognized
    simp [isUnrecognized]
  · rename_i isString
    rw [List.mem_append,
      or_iff_right (StringPiece.unterminated_notMem_faults span _ _)]
    by_cases closed : token.IsClosed
    · simp [closed]
    · simp [closed, isString]
  · rename_i notString
    simp only [List.not_mem_nil, false_iff, not_and]
    exact fun isString => absurd isString notString

namespace IsWellCut

variable (wellCut : token.IsWellCut) (isString : token.kind = .string)

include wellCut isString

/-- A closing quote is the last piece. -/
theorem isClosed_iff :
    token.IsClosed ↔ token.pieces.getLast? = some (.plain '"') := by
  obtain ⟨front, noQuote, pieces⟩ := wellCut.ends isString
  constructor
  · intro closed
    rw [pieces, if_pos closed, List.getLast?_concat]
  · exact List.mem_of_getLast?

theorem not_isClosed_of_endsInEscapedQuote
    (escaped : token.EndsInEscapedQuote) : ¬token.IsClosed := by
  rw [wellCut.isClosed_iff isString, escaped]
  nofun

/-- A quote at the end closes the string or belongs to an escape. -/
theorem getLast?_eq_quote_iff :
    (token.pieces.flatMap StringPiece.characters).getLast? = some '"' ↔
      token.IsClosed ∨ token.EndsInEscapedQuote := by
  rw [wellCut.isClosed_iff isString, EndsInEscapedQuote,
    StringPiece.getLast?_flatMap]
  cases token.pieces.getLast? with
  | none => simp
  | some piece => cases piece <;> simp [StringPiece.last]

end IsWellCut

end Token

/-- Un-quoting drops the first quote, and the last character if it is another one. -/
theorem Text.toList_unquote {text : String} {body : List Char}
    (characters : text.toList = '"' :: body) :
    (unquote text).toList =
      if body.getLast? = some '"' then body.dropLast else body := by
  have unquoted : unquote text =
      if body.getLast? = some '"' then String.ofList body.dropLast
      else String.ofList body := by
    rw [unquote, characters]
    rfl
  rw [unquoted]
  split <;> rw [String.toList_ofList]

section

variable {text : String} {body : List Char}

/-- What is left is what stands between two quotes, if there are two. -/
theorem Text.eq_quoted_iff (characters : text.toList = '"' :: body) :
    text.toList = '"' :: ((unquote text).toList ++ ['"']) ↔
      body.getLast? = some '"' := by
  rw [toList_unquote characters, characters, List.cons_inj_right]
  constructor
  · intro split
    rw [split, List.getLast?_concat]
  · intro ends
    obtain ⟨front, rfl⟩ := List.getLast?_eq_some_iff.mp ends
    rw [if_pos ends, List.dropLast_concat]

theorem Text.eq_halfQuoted_iff (characters : text.toList = '"' :: body) :
    text.toList = '"' :: (unquote text).toList ↔
      body.getLast? ≠ some '"' := by
  rw [toList_unquote characters, characters, List.cons_inj_right]
  constructor
  · intro same ends
    obtain ⟨front, rfl⟩ := List.getLast?_eq_some_iff.mp ends
    rw [if_pos ends, List.dropLast_concat] at same
    simpa using congrArg List.length same
  · intro goesOn
    rw [if_neg goesOn]

end

namespace Compilation

variable {text : String} {token : Token}

/-- Only scanning reports strings without an end. -/
theorem unterminated_mem_diagnostics_iff (span : Span) :
    ⟨.unterminatedString, span⟩ ∈ (ofText text).diagnostics ↔
      ⟨.unterminatedString, span⟩ ∈ (Scan.ofText text).diagnostics := by
  obtain ⟨accounts, accountsFor⟩ :=
    Parse.exists_accountsFor (Scan.ofText text).tokens
  have placed := Token.allAt_self
    (Parse.ofTokens (Scan.ofText text).tokens).tree.tokens
  have parsed : ⟨.unterminatedString, span⟩ ∉
      (Parse.ofTokens (Scan.ofText text).tokens).diagnostics := by
    rw [← accountsFor.reports_eq, Account.reportsOf, List.mem_filterMap]
    rintro ⟨⟨token, fate⟩, -, report⟩
    cases fate <;> simp [Account.report?] at report
  have bound : ⟨.unterminatedString, span⟩ ∉
      (Parse.ofTokens (Scan.ofText text).tokens).tree.bindingDiagnostics :=
    fun member => absurd
      (SyntaxTree.allFrom_bindingDiagnostics placed _ member).isNumbered
      (show ¬Problem.unterminatedString.isNumbered 6 15 = true by decide)
  have checked : ⟨.unterminatedString, span⟩ ∉ (Document.ofTree
      (Parse.ofTokens
        (Scan.ofText text).tokens).tree).checkDiagnostics :=
    fun member => absurd
      (Document.allFrom_checkDiagnostics (Document.standsAt_ofTree placed) _
        member).isNumbered
      (show ¬Problem.unterminatedString.isNumbered 16 25 = true by decide)
  simp only [ofText, List.mem_append, parsed, bound, checked, or_false]

theorem isUnterminated_iff (member : token ∈ (ofText text).tokens)
    (isString : token.kind = .string) :
    (ofText text).IsUnterminated token ↔ ¬token.IsClosed := by
  rw [IsUnterminated, unterminated_mem_diagnostics_iff, Scan.ofText,
    Scan.diagnostics_scanFrom, List.mem_flatMap]
  simp only [Token.unterminated_mem_faults_iff]
  constructor
  · rintro ⟨other, isOther, -, notClosed, same⟩
    rwa [Scan.eq_of_span_eq member isOther same]
  · intro notClosed
    exact ⟨token, member, isString, notClosed, rfl⟩

/-- The place inside a string begins behind its first character and ends in front of
its last one, if that is another quote, or at the end of the string. -/
theorem innerSpan_eq (member : token ∈ (ofText text).tokens)
    {body : List Char} (characters : token.text.toList = '"' :: body) :
    (ofText text).innerSpan token.span =
      ⟨token.span.start.right 1,
        if body.getLast? = some '"' then
          ⟨token.span.finish.line, token.span.finish.column - 1⟩
        else token.span.finish⟩ := by
  have finish := Scan.finish_of_mem member
  have units : Text.units token.text.toList = 1 + Text.units body := by
    rw [characters]
    rfl
  have ends : (ofText text).endsInQuote token.span = true ↔
      body.getLast? = some '"' := by
    rw [endsInQuote_span member, characters]
    cases body with
    | nil => simp
    | cons first others => simp
  by_cases quote : body.getLast? = some '"'
  · have wide : 0 < Text.units body := by
      cases body with
      | nil => contradiction
      | cons first others =>
          exact Nat.add_pos_left (Text.unitWidth_pos first) _
    rw [innerSpan, if_pos (ends.mpr quote), if_pos quote, finish, units]
    simp only [Position.right, Span.mk.injEq, Position.mk.injEq, true_and]
    omega
  · rw [innerSpan, if_neg (ends.not.mpr quote), if_neg quote, finish, units]
    simp only [Position.right, Span.mk.injEq, Position.mk.injEq, true_and]
    omega

/-- What un-quoting and editing take for the end of a string.  They drop its last
character when the scan has found a closing quote, and else only when the character is
a quote that belongs to an escape. -/
structure TrimsQuote (compilation : Compilation) (token : Token) : Prop where
  quoted_iff :
    token.text.toList =
        '"' :: ((Text.unquote token.text).toList ++ ['"']) ↔
      ¬compilation.IsUnterminated token ∨ token.EndsInEscapedQuote
  halfQuoted_iff :
    token.text.toList = '"' :: (Text.unquote token.text).toList ↔
      compilation.IsUnterminated token ∧ ¬token.EndsInEscapedQuote
  innerSpan_eq : compilation.innerSpan token.span =
    ⟨token.span.start.right 1,
      if token.text.toList = '"' :: (Text.unquote token.text).toList then
        token.span.finish
      else ⟨token.span.finish.line, token.span.finish.column - 1⟩⟩
  isUnterminated : token.EndsInEscapedQuote → compilation.IsUnterminated token

theorem trimsQuote (member : token ∈ (ofText text).tokens)
    (isString : token.kind = .string) :
    (ofText text).TrimsQuote token := by
  have wellCut := Scan.isWellCut_of_mem member
  have characters := wellCut.text_eq isString
  have unterminated := isUnterminated_iff member isString
  have ends := wellCut.getLast?_eq_quote_iff isString
  refine ⟨?_, ?_, ?_, ?_⟩
  · rw [Text.eq_quoted_iff characters, ends, unterminated, not_not]
  · rw [Text.eq_halfQuoted_iff characters, ne_eq, ends, unterminated, not_or]
  · rw [innerSpan_eq member characters, ← ite_not]
    simp only [Text.eq_halfQuoted_iff characters, ne_eq]
  · intro escaped
    exact unterminated.mpr
      (wellCut.not_isClosed_of_endsInEscapedQuote isString escaped)

/-- An action whose name ends in an escaped quote, and the token of the name. -/
def escapedEnd : String := "action \"a\\\"\n\x7b uses = \"./x\" \x7d"

def escapedName : Token := ⟨.string, .single 0 7 4, "\"a\\\""⟩

theorem escapedName_mem : escapedName ∈ (ofText escapedEnd).tokens := by
  decide +kernel

theorem trimsQuote_escapedName :
    escapedName ∈ (ofText escapedEnd).tokens ∧ escapedName.kind = .string ∧
      (ofText escapedEnd).TrimsQuote escapedName :=
  ⟨escapedName_mem, rfl, trimsQuote escapedName_mem rfl⟩

/-- The name is reported as unterminated, and its last character is dropped. -/
theorem escapedName_unquoted :
    escapedName ∈ (ofText escapedEnd).tokens ∧ escapedName.kind = .string ∧
      (ofText escapedEnd).IsUnterminated escapedName ∧
      escapedName.text.toList =
        '"' :: ((Text.unquote escapedName.text).toList ++ ['"']) ∧
      (ofText escapedEnd).innerSpan escapedName.span =
        ⟨escapedName.span.start.right 1,
          ⟨escapedName.span.finish.line,
            escapedName.span.finish.column - 1⟩⟩ := by
  refine ⟨escapedName_mem, rfl, ?_, by decide +kernel, by decide +kernel⟩
  rw [isUnterminated_iff escapedName_mem rfl]
  decide +kernel

end Compilation

end WorkflowLang
