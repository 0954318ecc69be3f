import WorkflowLang.Proofs.Token.Recutting

/-!
# Scanning a token again

Every token of a scan without problems stands on one line and is found again
from its own text, wherever that text stands (`Token.IsRecut`).
-/

namespace WorkflowLang

/-- A character that is cut off as the first one of a token. -/
def BeginsToken (character : Char) : Prop :=
  Text.isLineBreak character = false ∧
    ¬(character = ' ' ∨ character = '\t')

theorem StringBody.oneLine_read (position : Position) (text : List Char) :
    ∀ character ∈ (read position text).characters,
      Text.isLineBreak character = false := by
  fun_induction read position text with
  | case1 => simp
  | case2 => simp [Text.isLineBreak]
  | case3 => simp [Text.isLineBreak]
  | case4 position escaped rest notBreak body inductionHypothesis =>
      intro character member
      rcases List.mem_cons.mp member with rfl | isLater
      · rfl
      · rcases List.mem_cons.mp isLater with rfl | isBehind
        · exact Bool.eq_false_iff.mpr notBreak
        · exact inductionHypothesis character isBehind
  | case5 => simp
  | case6 position first rest notQuote notEscape notBreak body
      inductionHypothesis =>
      intro character member
      rcases List.mem_cons.mp member with rfl | isLater
      · exact Bool.eq_false_iff.mpr notBreak
      · exact inductionHypothesis character isLater

/-- A run of characters that break no line breaks no line. -/
theorem Lexeme.oneLine_cutRun (kind : List Char → TokenKind)
    {isPart : Char → Bool} {first : Char}
    (firstIn : Text.isLineBreak first = false)
    (partIn : ∀ part, isPart part = true → Text.isLineBreak part = false)
    (rest : List Char) :
    ∀ character ∈ (cutRun kind isPart first rest).characters,
      Text.isLineBreak character = false := by
  intro character member
  rcases List.mem_cons.mp member with rfl | isLater
  · exact firstIn
  · exact partIn character (List.mem_takeWhile_imp isLater)

/-- No token goes on below its line. -/
theorem Lexeme.oneLine_cut {first : Char} (begins : BeginsToken first)
    (position : Position) (rest : List Char) :
    ∀ character ∈ (cut position first rest).characters,
      Text.isLineBreak character = false := by
  have alone : ∀ character ∈ [first], Text.isLineBreak character = false := by
    intro character member
    rw [List.mem_singleton.mp member]
    exact begins.1
  unfold cut
  split
  · exact alone
  · split
    · exact oneLine_cutRun _ begins.1 (fun part inside => by simpa using inside)
        rest
    · split
      · intro character member
        rcases List.mem_cons.mp member with rfl | isLater
        · rfl
        · exact StringBody.oneLine_read _ _ character isLater
      · split
        · exact oneLine_cutRun _ begins.1 (fun part inside =>
            isLineBreak_of_isWordPart (by simp [isWordPart, inside])) rest
        · split
          · exact oneLine_cutRun _ begins.1
              (fun part => isLineBreak_of_isWordPart) rest
          · exact alone

/-- The token of a lexeme that stands at a position. -/
def Lexeme.toToken (lexeme : Lexeme) (position : Position) : Token :=
  ⟨lexeme.kind, ⟨position, position.right (Text.units lexeme.characters)⟩,
    String.ofList lexeme.characters⟩

namespace Scan

/-- A scan behind tokens that were found before. -/
def behind (tokens : List Token) (scan : Scan) : Scan :=
  ⟨tokens ++ scan.tokens, scan.diagnostics⟩

@[simp] theorem behind_nil (scan : Scan) : scan.behind [] = scan := rfl

theorem behind_behind (first second : List Token) (scan : Scan) :
    (scan.behind second).behind first = scan.behind (first ++ second) := by
  simp [behind]

theorem scanFrom_of_begins {character : Char}
    (begins : BeginsToken character) (position : Position)
    (rest : List Char) :
    scanFrom position (character :: rest) =
      let lexeme := Lexeme.cut position character rest
      let others :=
        scanFrom (position.right (Text.units lexeme.characters)) lexeme.rest
      ⟨lexeme.toToken position :: others.tokens,
        lexeme.diagnostics ++ others.diagnostics⟩ := by
  rw [scanFrom]
  · simp [begins.1, begins.2, Lexeme.toToken]
  · rintro others rfl
    exact absurd begins.1 (by decide)

/-- Every token of a scan was cut off somewhere, and what was reported there is
reported by the scan. -/
theorem exists_cut_of_mem {position : Position} {text : List Char}
    {token : Token} (member : token ∈ (scanFrom position text).tokens) :
    ∃ place character rest, BeginsToken character ∧
      token = (Lexeme.cut place character rest).toToken place ∧
      (Lexeme.cut place character rest).diagnostics ⊆
        (scanFrom position text).diagnostics := by
  fun_induction scanFrom position text with
  | case1 => simp at member
  | case2 _ _ inductionHypothesis => exact inductionHypothesis member
  | case3 _ _ _ _ _ inductionHypothesis => exact inductionHypothesis member
  | case4 _ _ _ _ _ _ inductionHypothesis =>
      exact inductionHypothesis member
  | case5 position character rest _ notBreak notBlank lexeme finish found
      others inductionHypothesis =>
      rcases List.mem_cons.mp member with isFirst | isLater
      · refine ⟨position, character, rest,
          ⟨Bool.eq_false_iff.mpr notBreak, notBlank⟩, isFirst, ?_⟩
        exact List.subset_append_left _ _
      · obtain ⟨place, first, behind, begins, cut, reported⟩ :=
          inductionHypothesis isLater
        refine ⟨place, first, behind, begins, cut, ?_⟩
        exact List.subset_append_of_subset_right _ reported

end Scan

namespace Token

/-- A token is cut from its own text wherever that stands. -/
def IsRecut (token : Token) : Prop :=
  ∃ first others, token.text.toList = first :: others ∧ BeginsToken first ∧
    ∀ (position : Position) (rest : List Char), token.kind.EndsBefore rest →
      Lexeme.cut position first (others ++ rest) =
        ⟨token.kind, first :: others, rest, []⟩

/-- The tokens of a faultless text are cut again. -/
theorem isRecut_of_mem_scan {position : Position} {text : List Char}
    (clean : (Scan.scanFrom position text).diagnostics = []) {token : Token}
    (member : token ∈ (Scan.scanFrom position text).tokens) :
    token.IsRecut := by
  obtain ⟨place, first, rest, begins, rfl, reported⟩ :=
    Scan.exists_cut_of_mem member
  rw [clean] at reported
  obtain ⟨others, characters, again⟩ :=
    Lexeme.cut_again (List.subset_nil.mp reported)
  exact ⟨first, others, by simp [Lexeme.toToken, characters], begins, again⟩

theorem IsRecut.text_ne_empty {token : Token} (recut : token.IsRecut) :
    token.text ≠ "" := by
  obtain ⟨first, others, text, _⟩ := recut
  intro isEmpty
  simp [isEmpty] at text

theorem IsRecut.exists_head {token : Token} (recut : token.IsRecut) :
    ∃ first others, token.text.toList = first :: others ∧
      BeginsToken first ∧
        (punctuationKind? first = some token.kind ∨
          token.kind ∈ TokenKind.unmarked) := by
  obtain ⟨first, others, text, begins, again⟩ := recut
  have cut := again Position.origin [] (by simp [TokenKind.EndsBefore])
  rw [List.append_nil] at cut
  refine ⟨first, others, text, begins, ?_⟩
  have kinds := Lexeme.kind_cut_of_clean
    (show (Lexeme.cut Position.origin first others).diagnostics = [] by
      rw [cut])
  rwa [cut] at kinds

theorem IsRecut.kind_ne_unrecognized {token : Token}
    (recut : token.IsRecut) : token.kind ≠ .unrecognized := by
  obtain ⟨first, _, _, _, isMark | isOther⟩ := recut.exists_head
  · intro unrecognized
    rw [unrecognized] at isMark
    unfold punctuationKind? at isMark
    split at isMark <;> simp at isMark
  · intro unrecognized
    rw [unrecognized] at isOther
    exact absurd isOther (by decide)

/-- No punctuation mark begins like a word. -/
theorem IsRecut.isWordPart_mark {token : Token} (recut : token.IsRecut)
    (isMark : token.kind ∈ TokenKind.marks) {next : Char}
    (head : next ∈ token.text.toList.head?) : isWordPart next = false := by
  obtain ⟨first, others, text, _, isPunctuation | isOther⟩ :=
    recut.exists_head
  · obtain rfl : first = next := by simpa [text] using head
    by_contra isPart
    rw [Bool.not_eq_false] at isPart
    rw [(Lexeme.plain_of_isWordPart isPart).1] at isPunctuation
    contradiction
  · have apart : ∀ kind ∈ TokenKind.marks, kind ∉ TokenKind.unmarked := by
      decide
    exact absurd isOther (apart _ isMark)

/-- A token that is cut again stands on one line. -/
theorem IsRecut.oneLine {token : Token} (recut : token.IsRecut) :
    ∀ character ∈ token.text.toList,
      Text.isLineBreak character = false := by
  obtain ⟨first, others, text, begins, again⟩ := recut
  have cut := again Position.origin [] (by simp [TokenKind.EndsBefore])
  have oneLine := Lexeme.oneLine_cut begins Position.origin others
  rw [List.append_nil] at cut
  rwa [cut, ← text] at oneLine

/-- A token moved to a position. -/
def placedAt (token : Token) (position : Position) : Token :=
  { token with
    span := ⟨position, position.right (Text.units token.text.toList)⟩ }

/-- A token is cut from its own text in front of a certain text. -/
def IsCutBefore (token : Token) (rest : List Char) : Prop :=
  ∃ first others, token.text.toList = first :: others ∧ BeginsToken first ∧
    ∀ position : Position, Lexeme.cut position first (others ++ rest) =
      ⟨token.kind, first :: others, rest, []⟩

theorem IsRecut.isCutBefore {token : Token} (recut : token.IsRecut)
    {rest : List Char} (ends : token.kind.EndsBefore rest) :
    token.IsCutBefore rest := by
  obtain ⟨first, others, text, begins, again⟩ := recut
  exact ⟨first, others, text, begins, fun position => again position rest ends⟩

/-- What a token is cut in front of matters by its first character only. -/
theorem IsCutBefore.congr {token : Token} {rest other : List Char}
    (isCut : token.IsCutBefore rest) (same : other.head? = rest.head?) :
    token.IsCutBefore other := by
  obtain ⟨first, others, text, begins, cut⟩ := isCut
  have clean : (Lexeme.cut Position.origin first
      (others ++ rest)).diagnostics = [] := by
    rw [cut]
  have stops := Lexeme.stopsBefore_rest_cut clean
  obtain ⟨characters, own, again⟩ := Lexeme.cut_again_of_stopsBefore clean
  rw [cut] at stops own again
  obtain rfl := List.tail_eq_of_cons_eq own
  exact ⟨first, others, text, begins, fun position =>
    again position other (stops.congr same)⟩

/-- Nothing is cut between a line feed and what is before it. -/
theorem IsCutBefore.head?_ne_lineFeed {token : Token} {rest : List Char}
    (isCut : token.IsCutBefore rest) :
    (token.text.toList ++ rest).head? ≠ some '\n' := by
  obtain ⟨first, others, text, begins, -⟩ := isCut
  rw [text]
  intro isFeed
  obtain rfl : first = '\n' := by simpa using isFeed
  exact absurd begins.1 (by decide)

/-- A token that is cut again is found where its text stands. -/
theorem IsCutBefore.scanFrom {token : Token} {rest : List Char}
    (isCut : token.IsCutBefore rest) (position : Position) :
    Scan.scanFrom position (token.text.toList ++ rest) =
      (Scan.scanFrom (position.right (Text.units token.text.toList))
        rest).behind [token.placedAt position] := by
  obtain ⟨first, others, text, begins, cut⟩ := isCut
  have characters : String.ofList (first :: others) = token.text := by
    rw [← text, String.ofList_toList]
  rw [text, List.cons_append, Scan.scanFrom_of_begins begins, cut position]
  simp [Scan.behind, Lexeme.toToken, placedAt, characters, text]

end Token

end WorkflowLang
