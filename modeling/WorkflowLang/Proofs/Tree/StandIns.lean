import WorkflowLang.Proofs.Tree.Simulation
import WorkflowLang.Proofs.Tree.Typing

/-!
# Where the stand-in for a name stands

When a block has no name, the stand-in for it has the span of a token of the
input: of the one in front of which the parser gave up, or of the last one it
passed.  The parser was looking for a string, so this token is none
(`Parse.exists_token_of_isMissing_name`).
-/

namespace WorkflowLang

open TokenKind (statementKeywords)

namespace Cursor

/-- All tokens ahead of a cursor belong to an input. -/
def IsWithin (input : List Token) (cursor : Cursor) : Prop :=
  cursor.rest ⊆ input

theorem rest_takeFrom_subset (resumable expected : List TokenKind)
    (last : Span) (isReported : Bool) (reports : List Diagnostic)
    (tokens : List Token) :
    (takeFrom resumable expected last isReported reports
      tokens).2.rest ⊆ tokens := by
  induction tokens generalizing last isReported reports with
  | nil => exact List.Subset.refl _
  | cons token rest inductionHypothesis =>
      rw [takeFrom]
      split
      · exact List.subset_cons_self _ _
      · split
        · exact List.Subset.refl _
        · exact List.subset_cons_of_subset _ (inductionHypothesis _ _ _)

theorem IsWithin.take {input : List Token} {cursor : Cursor}
    (within : cursor.IsWithin input) (resumable expected : List TokenKind) :
    (cursor.take resumable expected).2.IsWithin input :=
  List.Subset.trans (rest_takeFrom_subset _ _ _ _ _ _) within

theorem IsWithin.takeComma {input : List Token} {cursor : Cursor}
    (within : cursor.IsWithin input) :
    cursor.takeComma.2.IsWithin input := by
  obtain ⟨tokens, last, isReported, reports⟩ := cursor
  cases tokens with
  | nil => exact within
  | cons token rest =>
      unfold Cursor.takeComma
      dsimp only
      split
      · exact List.Subset.trans (List.subset_cons_self _ _) within
      · exact within

/-- A token that is taken is one of those ahead, and the cursor is behind it. -/
theorem takeFrom_of_isMissing_eq_false {resumable expected : List TokenKind}
    {last : Span} {isReported : Bool} {reports : List Diagnostic}
    {tokens : List Token}
    (present : (takeFrom resumable expected last isReported reports
      tokens).1.isMissing = false) :
    (takeFrom resumable expected last isReported reports tokens).1 ∈ tokens ∧
      (takeFrom resumable expected last isReported reports tokens).2.last =
        (takeFrom resumable expected last isReported reports
          tokens).1.span := by
  induction tokens generalizing last isReported reports with
  | nil => simp [takeFrom] at present
  | cons token rest inductionHypothesis =>
      rw [takeFrom] at present ⊢
      split
      · exact ⟨List.mem_cons_self, rfl⟩
      · rename_i unexpected
        split
        · rename_i resumed
          rw [if_neg unexpected, if_pos resumed] at present
          simp at present
        · rename_i skipped
          rw [if_neg unexpected, if_neg skipped] at present
          obtain ⟨member, behind⟩ := inductionHypothesis present
          exact ⟨List.mem_cons_of_mem _ member, behind⟩

/-- A stand-in has the span of the token passed last, or of one of the tokens
ahead that is not of an expected kind. -/
theorem span_takeFrom_of_isMissing {resumable expected : List TokenKind}
    (notExpected : .missing ∉ expected) {last : Span} {isReported : Bool}
    {reports : List Diagnostic} {tokens : List Token}
    (missing : (takeFrom resumable expected last isReported reports
      tokens).1.isMissing = true) :
    (takeFrom resumable expected last isReported reports
        tokens).1.span = last ∨
      ∃ token ∈ tokens, token.kind ∉ expected ∧
        (takeFrom resumable expected last isReported reports
          tokens).1.span = token.span := by
  induction tokens generalizing last isReported reports with
  | nil => exact Or.inl rfl
  | cons token rest inductionHypothesis =>
      rw [takeFrom] at missing ⊢
      split
      · rename_i wanted
        rw [if_pos wanted] at missing
        have isMissing : token.kind = .missing := beq_iff_eq.mp missing
        rw [isMissing] at wanted
        exact absurd (List.contains_iff_mem.mp wanted) notExpected
      · rename_i unwanted
        have otherKind : token.kind ∉ expected := fun isExpected =>
          unwanted (List.contains_iff_mem.mpr isExpected)
        split
        · exact Or.inr ⟨token, List.mem_cons_self, otherKind, rfl⟩
        · rename_i skipped
          rw [if_neg unwanted, if_neg skipped] at missing
          rcases inductionHypothesis missing with atLast | ⟨other, rest⟩
          · exact Or.inr ⟨token, List.mem_cons_self, otherKind, atLast⟩
          · exact Or.inr ⟨other, List.mem_cons_of_mem _ rest.1, rest.2⟩

end Cursor

namespace SyntaxTree

variable {input : List Token}

/-- A stand-in for the name of a block has the span of a token of the input that
is no string. -/
def NameStandsAt (input : List Token) (block : Block) : Prop :=
  block.name.isMissing = true →
    ∃ token ∈ input, token.kind ≠ .string ∧ block.name.span = token.span

/-- Right behind a keyword the parser looks for the name of a block. -/
theorem nameStandsAt_parseBlock (kind : BlockKind) {keyword : Token}
    (isToken : keyword ∈ input) (notString : keyword.kind ≠ .string)
    {cursor : Cursor} (within : cursor.IsWithin input)
    (behind : cursor.last = keyword.span) :
    NameStandsAt input (parseBlock kind keyword cursor).1 := by
  intro missing
  rcases Cursor.span_takeFrom_of_isMissing (by decide) missing with
    atLast | ⟨token, isAhead, otherKind, atToken⟩
  · exact ⟨keyword, isToken, notString, atLast.trans behind⟩
  · refine ⟨token, within isAhead, ?_, atToken⟩
    exact fun isString => otherKind (List.mem_singleton.mpr isString)

theorem nameStandsAt_parseAfterKeyword {keyword : Token}
    (isToken : keyword.isMissing = false → keyword ∈ input)
    {cursor : Cursor} (within : cursor.IsWithin input)
    (behind : keyword.isMissing = false → cursor.last = keyword.span) :
    ∀ block, some (.block block) = (parseAfterKeyword keyword cursor).1 →
      NameStandsAt input block := by
  have isPresent {kind : TokenKind} (isKind : keyword.kind = kind)
      (notMissing : kind ≠ .missing) : keyword.isMissing = false := by
    rw [Token.isMissing, beq_eq_false_iff_ne, isKind]
    exact notMissing
  unfold parseAfterKeyword
  split
  · simp
  · rename_i isWorkflow
    have present := isPresent isWorkflow (by decide)
    rintro block ⟨rfl⟩
    exact nameStandsAt_parseBlock .workflow (isToken present)
      (by rw [isWorkflow]; decide) within (behind present)
  · rename_i isAction
    have present := isPresent isAction (by decide)
    rintro block ⟨rfl⟩
    exact nameStandsAt_parseBlock .action (isToken present)
      (by rw [isAction]; decide) within (behind present)
  · simp

theorem nameStandsAt_parseStatements {cursor : Cursor}
    (within : cursor.IsWithin input) :
    ∀ block, Statement.block block ∈ (parseStatements cursor).1 →
      NameStandsAt input block := by
  fun_induction parseStatements cursor with
  | case1 cursor _ keyword statement others =>
      rename_i inductionHypothesis
      have behindKeyword : keyword.2.IsWithin input :=
        within.take [] statementKeywords
      have stillWithin : statement.2.IsWithin input :=
        Simulation.invariant_parseAfterKeyword (Cursor.IsWithin input)
          (fun _ kept => kept.take _ _) (fun kept => kept.takeComma)
          keyword.1 behindKeyword
      intro block member
      rcases List.mem_append.mp member with isFirst | isOther
      · refine nameStandsAt_parseAfterKeyword (fun present => ?_)
          behindKeyword (fun present => ?_) block
          (Option.mem_toList.mp isFirst).symm
        · exact within (Cursor.takeFrom_of_isMissing_eq_false present).1
        · exact (Cursor.takeFrom_of_isMissing_eq_false present).2
      · exact inductionHypothesis stillWithin block isOther
  | case2 => simp

end SyntaxTree

/-- A block without a name has a stand-in where a token of another kind is. -/
theorem Parse.exists_token_of_isMissing_name {tokens : List Token}
    {block : Block} (member : block ∈ (ofTokens tokens).tree.blocks)
    (missing : block.name.isMissing = true) :
    ∃ token ∈ tokens, token.kind ≠ .string ∧
      block.name.span = token.span := by
  obtain ⟨token, isToken, stands⟩ :=
    SyntaxTree.nameStandsAt_parseStatements (List.Subset.refl _) block
      (SyntaxTree.mem_of_mem_blocks member) missing
  exact ⟨token, (List.mem_filter.mp isToken).1, stands⟩

end WorkflowLang
