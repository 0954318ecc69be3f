import WorkflowLang.Proofs.Token.Replacing

/-!
# Joining tokens again

Tokens of faultless texts may be put together anew, from whatever texts they come and
in whatever order.  Blanks have to keep them apart: a new line begins behind a comment,
and behind any other token there is a blank, unless a punctuation mark follows.  Then
each token ends where its text does, and scanning the joined text finds the tokens
again without a report (`Scan.ofText_joinedTokens`).
-/

namespace WorkflowLang

/-- A token of a text that is scanned without a report. -/
def Token.IsFaultless (token : Token) : Prop :=
  ∃ text, (Scan.ofText text).diagnostics = [] ∧
    token ∈ (Scan.ofText text).tokens

theorem Token.IsFaultless.isRecut {token : Token}
    (faultless : token.IsFaultless) : token.IsRecut := by
  obtain ⟨text, clean, member⟩ := faultless
  exact isRecut_of_mem_scan clean member

theorem IsGap.isWordPart_eq_false {character : Char} (isGap : IsGap character) :
    isWordPart character = false := by
  by_contra isPart
  rw [Bool.not_eq_false] at isPart
  rcases isGap with isBreak | rfl | rfl
  · rw [isLineBreak_of_isWordPart isPart] at isBreak
    contradiction
  · exact absurd isPart (by decide)
  · exact absurd isPart (by decide)

namespace SpacedToken

/-- A gap that parts a token from the one before: behind a comment it begins a new
line, and behind any other token it is there unless a punctuation mark follows. -/
def Parts (first second : SpacedToken) : Prop :=
  if first.token.kind = .comment then
    ∃ character ∈ second.gap.head?, Text.isLineBreak character = true
  else second.gap ≠ [] ∨ second.token.kind ∈ TokenKind.marks

instance (first second : SpacedToken) : Decidable (Parts first second) :=
  inferInstanceAs (Decidable (ite _ _ _))

/-- Faultless tokens that are joined with blanks between them and behind them. -/
structure AreJoined (pieces : List SpacedToken) (closing : List Char) :
    Prop where
  faultless : ∀ piece ∈ pieces, piece.token.IsFaultless
  blank : ∀ piece ∈ pieces, ∀ character ∈ piece.gap, IsGap character
  closing_blank : ∀ character ∈ closing, IsGap character
  parted : pieces.IsChain Parts
  /-- A comment at the end has at most a new line behind it. -/
  closed : ∀ last ∈ pieces.getLast?, last.token.kind = .comment →
    ∀ character ∈ closing.head?, Text.isLineBreak character = true

variable {piece second : SpacedToken} {others : List SpacedToken}
  {closing : List Char}

theorem AreJoined.tail (joined : AreJoined (piece :: others) closing) :
    AreJoined others closing where
  faultless other member :=
    joined.faultless other (List.mem_cons_of_mem _ member)
  blank other member := joined.blank other (List.mem_cons_of_mem _ member)
  closing_blank := joined.closing_blank
  parted := joined.parted.of_cons
  closed last isLast :=
    joined.closed last (by simp_all [List.getLast?_cons])

/-- The last token ends before the blanks behind it. -/
theorem AreJoined.endsBefore_closing (joined : AreJoined [piece] closing) :
    piece.token.kind.EndsBefore closing := by
  intro next member
  split
  · next isComment => exact joined.closed piece rfl isComment next member
  · exact (joined.closing_blank next
      (List.mem_of_mem_head? member)).isWordPart_eq_false

/-- A token ends before a gap that parts it from the next one, or before the mark that
follows. -/
theorem Parts.endsBefore (parts : Parts piece second)
    (blank : ∀ character ∈ second.gap, IsGap character)
    (recut : second.token.IsRecut) (rest : List Char) :
    piece.token.kind.EndsBefore
      (second.gap ++ (second.token.text.toList ++ rest)) := by
  unfold Parts at parts
  split at parts
  · obtain ⟨character, begins, isBreak⟩ := parts
    obtain ⟨others, gap⟩ := List.head?_eq_some_iff.mp begins
    refine TokenKind.endsBefore_of_isLineBreak _ fun next member => ?_
    obtain rfl : character = next := by simpa [gap] using member
    exact isBreak
  · next notComment =>
    refine TokenKind.endsBefore_of_ne_comment notComment fun next member => ?_
    cases gap : second.gap with
    | nil =>
        have isMark := parts.resolve_left (absurd gap)
        refine recut.isWordPart_mark isMark ?_
        obtain ⟨first, others, text, -⟩ := recut
        simpa [gap, text] using member
    | cons character others =>
        obtain rfl : character = next := by simpa [gap] using member
        exact (blank character (by simp [gap])).isWordPart_eq_false

theorem AreJoined.endsBefore (joined : AreJoined (piece :: others) closing) :
    piece.token.kind.EndsBefore (text others ++ closing) := by
  cases others with
  | nil => exact joined.endsBefore_closing
  | cons second rest =>
      have parts : Parts piece second :=
        (List.isChain_cons_cons.mp joined.parted).1
      have isSecond : second ∈ piece :: second :: rest := by simp
      have ends := parts.endsBefore (joined.blank second isSecond)
        (joined.faultless second isSecond).isRecut (text rest ++ closing)
      simpa using ends

theorem AreJoined.separated {pieces : List SpacedToken}
    (joined : AreJoined pieces closing) : Separated closing pieces := by
  induction pieces with
  | nil => trivial
  | cons piece others inductionHypothesis =>
      exact ⟨joined.blank piece List.mem_cons_self,
        (joined.faultless piece List.mem_cons_self).isRecut,
        joined.endsBefore, inductionHypothesis joined.tail⟩

end SpacedToken

/-- Joined tokens are found again, without a report. -/
theorem Scan.ofText_joinedTokens {pieces : List SpacedToken}
    {closing : List Char} (joined : SpacedToken.AreJoined pieces closing) :
    let scan := ofText (String.ofList (SpacedToken.text pieces ++ closing))
    scan.tokens.map Token.unplaced =
        pieces.map (fun piece => piece.token.unplaced) ∧
      scan.diagnostics = [] := by
  have found := joined.separated.apart.scanFrom_closing joined.closing_blank
    Position.origin
  simp only [ofText, String.toList_ofList, found]
  exact ⟨SpacedToken.map_unplaced_placed pieces _, trivial⟩

/-- Tokens of one line each, the second line in front of the first. -/
def swappedPieces : List SpacedToken :=
  [⟨['\t'], ⟨.comment, .single 1 9 3, "//x"⟩⟩,
    ⟨['\r', ' '], ⟨.string, .single 1 2 6, "\"\\\"😀\""⟩⟩,
    ⟨[], ⟨.equal, .single 1 0 1, "="⟩⟩,
    ⟨[' '], ⟨.version, .single 0 0 7, "version"⟩⟩,
    ⟨['\n', '\n'], ⟨.integer, .single 0 8 2, "07"⟩⟩]

theorem Scan.ofText_joinedTokens_swappedPieces :
    SpacedToken.AreJoined swappedPieces [' '] ∧
      let scan := ofText
        (String.ofList (SpacedToken.text swappedPieces ++ [' ']))
      scan.tokens.map Token.unplaced =
          swappedPieces.map (fun piece => piece.token.unplaced) ∧
        scan.diagnostics = [] := by
  have joined : SpacedToken.AreJoined swappedPieces [' '] :=
    { faultless := fun piece member =>
        ⟨"version 07\n= \"\\\"😀\" //x", by decide +kernel,
          by revert piece; decide +kernel⟩
      blank := by simp [swappedPieces, IsGap, Text.isLineBreak]
      closing_blank := by simp [IsGap]
      parted := by
        simp [swappedPieces, SpacedToken.Parts, TokenKind.marks,
          Text.isLineBreak]
      closed := by decide }
  exact ⟨joined, ofText_joinedTokens joined⟩

end WorkflowLang
