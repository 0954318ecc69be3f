import WorkflowLang.Proofs.Token.Placement
import WorkflowLang.Text.Quoted

/-!
# Putting other strings in place of some

The tokens of a faultless text are cut apart by what stands behind them, and of
that only the first character matters.  So strings may be put in place of other
strings: they begin with the same quote, and they end by themselves.  Scanning
the new text finds the new strings and all other tokens
(`SpacedToken.Apart.replaceTokens`).
-/

namespace WorkflowLang

namespace Text

def quoted (name : String) : String :=
  String.ofList ('"' :: (name.toList ++ ['"']))

@[simp] theorem toList_quoted (name : String) :
    (quoted name).toList = '"' :: (name.toList ++ ['"']) :=
  String.toList_ofList

@[simp] theorem unquote_quoted (name : String) :
    unquote (quoted name) = name := by
  simp [unquote]

end Text

/-- A name without quotes, backslashes and control characters. -/
def IsPlainName (name : String) : Prop :=
  ∀ character ∈ name.toList,
    character ≠ '"' ∧ character ≠ '\\' ∧ isControl character = false

namespace StringBody

theorem read_of_plain {character : Char} (notQuote : character ≠ '"')
    (notBackslash : character ≠ '\\') (notControl : isControl character = false)
    (position : Position) (rest : List Char) :
    read position (character :: rest) =
      let body := read (position.right (Text.unitWidth character)) rest
      ⟨character :: body.characters, body.rest, body.diagnostics,
        body.isClosed⟩ := by
  have notBreak : ¬Text.isLineBreak character = true := by
    intro isBreak
    rw [Text.isLineBreak, Bool.or_eq_true, beq_iff_eq, beq_iff_eq] at isBreak
    rcases isBreak with rfl | rfl
    · exact absurd notControl (by decide)
    · exact absurd notControl (by decide)
  rw [read]
  · simp [notBreak, controlDiagnostics, notControl]
  · exact notQuote
  · intro escaped others isBackslash
    exact absurd isBackslash notBackslash

/-- A plain name is read up to the quote behind it. -/
theorem read_name {characters : List Char}
    (plain : ∀ character ∈ characters,
      character ≠ '"' ∧ character ≠ '\\' ∧ isControl character = false)
    (position : Position) (rest : List Char) :
    read position (characters ++ '"' :: rest) =
      ⟨characters ++ ['"'], rest, [], true⟩ := by
  induction characters generalizing position with
  | nil => simp [read]
  | cons character others inductionHypothesis =>
      obtain ⟨notQuote, notBackslash, notControl⟩ :=
        plain character List.mem_cons_self
      have behind := inductionHypothesis fun other member =>
        plain other (List.mem_cons_of_mem _ member)
      rw [List.cons_append, read_of_plain notQuote notBackslash notControl,
        behind]
      rfl

theorem exists_inner_of_isClosed {position : Position} {text : List Char}
    (closed : (read position text).isClosed = true) :
    ∃ inner, (read position text).characters = inner ++ ['"'] := by
  fun_induction read position text with
  | case1 => simp at closed
  | case2 => exact ⟨[], rfl⟩
  | case3 => simp at closed
  | case4 position escaped rest notBreak body inductionHypothesis =>
      obtain ⟨inner, characters⟩ := inductionHypothesis closed
      exact ⟨'\\' :: escaped :: inner, by simp [body, characters]⟩
  | case5 => simp at closed
  | case6 position character rest notQuote notEscape notBreak body
      inductionHypothesis =>
      obtain ⟨inner, characters⟩ := inductionHypothesis closed
      exact ⟨character :: inner, by simp [body, characters]⟩

end StringBody

namespace Lexeme

/-- Strings begin with a quote. -/
theorem eq_quote_of_kind_cut {position : Position} {character : Char}
    {rest : List Char}
    (isString : (cut position character rest).kind = .string) :
    character = '"' := by
  by_contra notQuote
  unfold cut at isString
  split at isString
  · rename_i kind mark
    obtain rfl : kind = .string := isString
    unfold punctuationKind? at mark
    split at mark <;> contradiction
  · rw [if_neg notQuote] at isString
    split at isString
    · contradiction
    · split at isString
      · contradiction
      · split at isString
        · have isWord := TokenKind.ofWord_mem
            (String.ofList (character :: rest.takeWhile isWordPart))
          rw [show TokenKind.ofWord _ = .string from isString] at isWord
          exact absurd isWord (by decide)
        · contradiction

end Lexeme

namespace Token

variable {token : Token}

/-- A faultless string has both its quotes. -/
theorem IsCutBefore.exists_inner {rest : List Char}
    (isCut : token.IsCutBefore rest) (isString : token.kind = .string) :
    ∃ inner, token.text.toList = '"' :: (inner ++ ['"']) := by
  obtain ⟨first, others, text, -, cut⟩ := isCut
  have here := cut Position.origin
  obtain rfl : first = '"' := by
    apply Lexeme.eq_quote_of_kind_cut
    rw [here]
    exact isString
  rw [Lexeme.cut_of_quote, Lexeme.cutString] at here
  injection here with _ characters _ unreported
  have closed : (StringBody.read (Position.origin.right 1)
      (others ++ rest)).isClosed = true := by
    by_contra notClosed
    simp [notClosed] at unreported
  obtain ⟨inner, ends⟩ := StringBody.exists_inner_of_isClosed closed
  refine ⟨inner, ?_⟩
  rw [text, ← characters, ends]

/-- A plain name between quotes is a string in front of everything. -/
theorem isCutBefore_of_quoted (isString : token.kind = .string)
    {name : String} (plain : IsPlainName name)
    (text : token.text = Text.quoted name) (rest : List Char) :
    token.IsCutBefore rest := by
  refine ⟨'"', name.toList ++ ['"'], ?_, ?_, ?_⟩
  · rw [text, Text.toList_quoted]
  · constructor <;> decide
  · intro position
    have read := StringBody.read_name plain (position.right 1) rest
    rw [List.append_assoc, List.singleton_append, Lexeme.cut_of_quote,
      Lexeme.cutString, read, isString]
    rfl

/-- A function on tokens puts strings that end by themselves in place of some
strings, and keeps all other tokens. -/
def ReplacesStrings (view : Token → Token) (tokens : List Token) : Prop :=
  ∀ token ∈ tokens, view token = token ∨
    (token.kind = .string ∧ (view token).text.toList.head? = some '"' ∧
      ∀ rest, (view token).IsCutBefore rest)

/-- Puts a name in place of some tokens. -/
def renameAmong (naming : List Token) (name : String) (token : Token) :
    Token :=
  if token ∈ naming then { token with text := Text.quoted name } else token

section

variable {naming : List Token} {name : String}

theorem renameAmong_of_mem (member : token ∈ naming) :
    token.renameAmong naming name =
      { token with text := Text.quoted name } :=
  if_pos member

theorem renameAmong_of_notMem (absent : token ∉ naming) :
    token.renameAmong naming name = token :=
  if_neg absent

@[simp] theorem kind_renameAmong (naming : List Token) (name : String)
    (token : Token) : (token.renameAmong naming name).kind = token.kind := by
  unfold renameAmong
  split <;> rfl

@[simp] theorem span_renameAmong (naming : List Token) (name : String)
    (token : Token) : (token.renameAmong naming name).span = token.span := by
  unfold renameAmong
  split <;> rfl

theorem replacesStrings_renameAmong
    (strings : ∀ token ∈ naming, token.kind = .string)
    (plain : IsPlainName name) (tokens : List Token) :
    ReplacesStrings (renameAmong naming name) tokens := by
  intro token _
  by_cases member : token ∈ naming
  · have isString := strings token member
    rw [renameAmong_of_mem member]
    refine Or.inr ⟨isString, ?_, ?_⟩
    · simp
    · exact isCutBefore_of_quoted isString plain rfl
  · exact Or.inl (renameAmong_of_notMem member)

end

end Token

namespace SpacedToken

def mapToken (view : Token → Token) (piece : SpacedToken) : SpacedToken :=
  ⟨piece.gap, view piece.token⟩

variable {view : Token → Token} {pieces : List SpacedToken}
  {rest : List Char}

theorem head?_text_mapToken (apart : Apart rest pieces)
    (replaces : Token.ReplacesStrings view (pieces.map SpacedToken.token)) :
    (text (pieces.map (mapToken view)) ++ rest).head? =
      (text pieces ++ rest).head? := by
  cases pieces with
  | nil => rfl
  | cons piece others =>
      obtain ⟨-, isCut, -⟩ := apart
      have sameHead : (view piece.token).text.toList.head? =
          piece.token.text.toList.head? := by
        rcases replaces piece.token List.mem_cons_self with
          kept | ⟨isString, head, -⟩
        · rw [kept]
        · obtain ⟨inner, text⟩ := isCut.exists_inner isString
          rw [head, text]
          rfl
      obtain ⟨first, others, text, -⟩ := isCut
      rw [text] at sameHead
      simp [mapToken, List.head?_append, sameHead, text]

/-- Tokens stay apart when strings are put in place of strings. -/
theorem Apart.replaceTokens (apart : Apart rest pieces)
    (replaces : Token.ReplacesStrings view (pieces.map SpacedToken.token)) :
    Apart rest (pieces.map (mapToken view)) := by
  induction pieces with
  | nil => trivial
  | cons piece others inductionHypothesis =>
      obtain ⟨blank, isCut, behind⟩ := apart
      have othersReplaced : Token.ReplacesStrings view
          (others.map SpacedToken.token) := by
        intro token member
        exact replaces token (List.mem_cons_of_mem _ member)
      have sameHead := head?_text_mapToken behind othersReplaced
      refine ⟨blank, ?_, inductionHypothesis behind othersReplaced⟩
      rcases replaces piece.token List.mem_cons_self with
        kept | ⟨-, -, always⟩
      · rw [mapToken, kept]
        exact isCut.congr sameHead
      · exact always _

/-- Tokens that are cut apart are all that is found in front of blanks. -/
theorem Apart.scanFrom_closing {closing : List Char}
    (apart : Apart closing pieces)
    (blank : ∀ character ∈ closing, IsGap character) (position : Position) :
    Scan.scanFrom position (text pieces ++ closing) =
      ⟨placed position pieces, []⟩ := by
  have nothing := @Scan.scanFrom_gap closing [] blank (by simp)
    (finish position pieces)
  rw [List.append_nil, Scan.scanFrom] at nothing
  rw [apart.scanFrom_text, nothing, Scan.behind, List.append_nil]

end SpacedToken

/-- The tokens of a faultless scan are cut apart. -/
theorem Scan.Cuts.apart {before text : List Char} {pieces : List SpacedToken}
    {reports : List Diagnostic} (cuts : Cuts before text pieces reports)
    (clean : reports = []) {closing : List Char}
    (whole : SpacedToken.text pieces ++ closing = text) :
    SpacedToken.Apart closing pieces := by
  induction cuts with
  | finish _ => trivial
  | @piece before gap rest first place lexeme others reports blank begins here
      cut behind inductionHypothesis =>
      obtain ⟨faultless, othersClean⟩ := List.append_eq_nil_iff.mp clean
      subst cut
      have lossless := Lexeme.cut_append place first rest
      have split : SpacedToken.text others ++ closing =
          (Lexeme.cut place first rest).rest := by
        simpa [Lexeme.toToken, ← lossless] using whole
      obtain ⟨characters, own, again⟩ :=
        Lexeme.cut_again_of_stopsBefore faultless
      have stops := Lexeme.stopsBefore_rest_cut faultless
      refine ⟨blank, ?_, inductionHypothesis othersClean split⟩
      refine ⟨first, characters, ?_, begins, ?_⟩
      · simp [Lexeme.toToken, own]
      · intro position
        rw [split]
        exact again position _ stops

end WorkflowLang
