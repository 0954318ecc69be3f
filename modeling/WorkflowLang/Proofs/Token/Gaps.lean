import WorkflowLang.Proofs.Token.Replacing

/-!
# Gaps are known from the text

A token begins with a character that no gap holds.  So a text is taken apart into
given tokens in one way only: the gaps between them, and the blanks at the end, are
what the text has there (`SpacedToken.eq_of_text_eq`).
-/

namespace WorkflowLang

theorem BeginsToken.not_isGap {character : Char}
    (begins : BeginsToken character) : ¬IsGap character := by
  rintro (isBreak | isBlank)
  · rw [begins.1] at isBreak
    contradiction
  · exact begins.2 isBlank

/-- A gap ends where the first character stands that no gap holds. -/
theorem IsGap.eq_of_append_eq {gap other behind otherBehind : List Char}
    {first second : Char} (blank : ∀ character ∈ gap, IsGap character)
    (otherBlank : ∀ character ∈ other, IsGap character)
    (begins : BeginsToken first) (otherBegins : BeginsToken second)
    (same : gap ++ first :: behind = other ++ second :: otherBehind) :
    gap = other ∧ first :: behind = second :: otherBehind := by
  induction gap generalizing other with
  | nil =>
      cases other with
      | nil => exact ⟨rfl, same⟩
      | cons character others =>
          obtain ⟨rfl, -⟩ := List.cons.inj same
          exact absurd (otherBlank first (by simp)) begins.not_isGap
  | cons character others inductionHypothesis =>
      cases other with
      | nil =>
          obtain ⟨rfl, -⟩ := List.cons.inj same
          exact absurd (blank character (by simp)) otherBegins.not_isGap
      | cons otherCharacter rest =>
          obtain ⟨rfl, sameRest⟩ := List.cons.inj same
          obtain ⟨rfl, sameBehind⟩ := inductionHypothesis
            (fun next member => blank next (List.mem_cons_of_mem _ member))
            (fun next member => otherBlank next (List.mem_cons_of_mem _ member))
            sameRest
          exact ⟨rfl, sameBehind⟩

namespace SpacedToken

/-- A text is taken apart into its tokens in one way. -/
theorem eq_of_text_eq {pieces others : List SpacedToken}
    {closing otherClosing : List Char}
    (tokens : pieces.map SpacedToken.token = others.map SpacedToken.token)
    (blank : ∀ piece ∈ pieces, ∀ character ∈ piece.gap, IsGap character)
    (apart : Apart otherClosing others)
    (same : text pieces ++ closing = text others ++ otherClosing) :
    pieces = others ∧ closing = otherClosing := by
  induction pieces generalizing others with
  | nil =>
      obtain rfl := List.map_eq_nil_iff.mp tokens.symm
      exact ⟨rfl, same⟩
  | cons piece rest inductionHypothesis =>
      cases others with
      | nil => simp at tokens
      | cons other otherRest =>
          obtain ⟨gap, token⟩ := piece
          obtain ⟨otherGap, otherToken⟩ := other
          obtain ⟨sameToken, restTokens⟩ := List.cons.inj tokens
          obtain rfl : token = otherToken := sameToken
          obtain ⟨otherBlank, ⟨first, characters, isText, begins, -⟩,
            otherApart⟩ := apart
          obtain ⟨here, restBlank⟩ := List.forall_mem_cons.mp blank
          simp only [text_cons, isText, List.append_assoc, List.cons_append]
            at same
          obtain ⟨rfl, behind⟩ :=
            IsGap.eq_of_append_eq here otherBlank begins begins same
          obtain ⟨rfl, sameClosing⟩ := inductionHypothesis restTokens restBlank
            otherApart (List.append_cancel_left (List.cons.inj behind).2)
          exact ⟨rfl, sameClosing⟩

theorem Apart.isGap {pieces : List SpacedToken} {rest : List Char}
    (apart : Apart rest pieces) :
    ∀ piece ∈ pieces, ∀ character ∈ piece.gap, IsGap character := by
  induction pieces with
  | nil => simp
  | cons piece others inductionHypothesis =>
      exact List.forall_mem_cons.mpr
        ⟨apart.1, inductionHypothesis apart.2.2⟩

end SpacedToken

end WorkflowLang
