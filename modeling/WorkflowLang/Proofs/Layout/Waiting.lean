import WorkflowLang.Proofs.Layout.Settling

/-!
# Comments that wait at the end

Comments wait for the next line when they stand among the tokens of one line.
Behind the last line there is no next one.  The last line of a plan is the
closing brace of a block, where nothing can wait, or a whole version statement;
so comments wait at the end only if a version ends the document and its comments
do not fit on its line.
-/

namespace WorkflowLang
namespace Layout

/-- No comment stands among the tokens of a line but one at the end of its
line of the text. -/
def FitOnLine (here : List CommentedToken) : Prop :=
  (∀ token ∈ here.tail, token.leading = []) ∧
    (here.filterMap CommentedToken.trailing).length ≤ 1

theorem settleComments_waiting_eq_nil_iff (comment : Option String)
    (tokens : List CommentedToken) :
    (settleComments comment tokens).2 = [] ↔
      (∀ token ∈ tokens, token.leading = []) ∧
        comment.toList.length +
          (tokens.filterMap CommentedToken.trailing).length ≤ 1 := by
  induction tokens generalizing comment with
  | nil => cases comment <;> simp [settleComments]
  | cons token others inductionHypothesis =>
      cases comment with
      | none =>
          have behind := inductionHypothesis token.trailing
          cases trailing : token.trailing with
          | none =>
              rw [trailing] at behind
              simp [settleComments, trailing, behind, and_assoc]
          | some text =>
              rw [trailing] at behind
              simp only [settleComments, trailing, List.append_eq_nil_iff,
                behind, List.forall_mem_cons,
                List.filterMap_cons_some trailing, Option.toList_some,
                Option.toList_none, List.length_cons, List.length_nil,
                Nat.zero_add, Nat.add_comm 1, and_assoc]
      | some kept =>
          have behind := inductionHypothesis (some kept)
          cases trailing : token.trailing with
          | none => simp [settleComments, trailing, behind, and_assoc]
          | some text => simp [settleComments, trailing]

theorem settledOf_waiting_eq_nil_iff (here : List CommentedToken) :
    (settledOf here).2 = [] ↔ FitOnLine here := by
  cases here with
  | nil => simp [settledOf, settleComments, FitOnLine]
  | cons first others =>
      have settled :=
        settleComments_waiting_eq_nil_iff first.trailing others
      cases trailing : first.trailing with
      | none =>
          rw [trailing] at settled
          simpa [settledOf, FitOnLine, trailing] using settled
      | some text =>
          rw [trailing] at settled
          simpa [settledOf, FitOnLine, trailing, Nat.add_comm] using settled

/-- Only the comments of the last line wait at the end. -/
theorem settle_waiting_concat (pending : List String)
    (commented : List CommentedToken) (plan : List PlannedLine)
    (depth commentDepth width : Nat) (planned : List Token) :
    (settle pending commented
        (plan ++ [.tokens depth commentDepth width planned])).2 =
      (settledOf ((commented.drop
        (plan.flatMap PlannedLine.contents).length).take
          planned.length)).2 := by
  induction plan generalizing pending commented with
  | nil => rfl
  | cons line others inductionHypothesis =>
      cases line with
      | blank => exact inductionHypothesis pending commented
      | tokens _ _ _ here =>
          rw [List.flatMap_cons, List.length_append,
            PlannedLine.contents_tokens, ← List.drop_drop]
          exact inductionHypothesis _ _

/-- The last line of a statement. -/
def lastLine : Statement → PlannedLine
  | .version version => .tokens 0 0 0 version.tokens
  | .block block => .tokens 0 1 0 [block.closeBracket]

theorem exists_statementLines_eq (statement : Statement) :
    ∃ front, statementLines statement = front ++ [lastLine statement] := by
  cases statement with
  | version version => exact ⟨[], rfl⟩
  | block block => exact ⟨_, rfl⟩

theorem exists_statementListLines_eq {statements : List Statement}
    {last : Statement} (isLast : statements.getLast? = some last) :
    ∃ front, statementListLines statements = front ++ [lastLine last] := by
  fun_induction statementListLines statements with
  | case1 => simp at isLast
  | case2 statement =>
      obtain rfl : statement = last := by simpa using isLast
      exact exists_statementLines_eq statement
  | case3 statement others several inductionHypothesis =>
      have isOther : others.getLast? = some last := by
        cases others with
        | nil => exact absurd rfl several
        | cons next others =>
            rwa [List.getLast?_cons_cons] at isLast
      obtain ⟨front, lines⟩ := inductionHypothesis isOther
      refine ⟨statementLines statement ++ .blank :: front, ?_⟩
      rw [lines, List.append_assoc, List.cons_append]

/-- No comment waits at the end unless a version ends the document whose
comments do not fit on its line. -/
theorem settle_waiting_eq_nil_iff {statements : List Statement}
    {commented : List CommentedToken}
    (covers : (statementListLines statements).flatMap PlannedLine.contents =
      commented.map CommentedToken.token) :
    (settle [] commented (statementListLines statements)).2 = [] ↔
      ∀ version, statements.getLast? = some (.version version) →
        FitOnLine (commented.drop (commented.length - 3)) := by
  cases isLast : statements.getLast? with
  | none =>
      obtain rfl := List.getLast?_eq_none_iff.mp isLast
      simp [statementListLines, settle]
  | some last =>
      obtain ⟨front, lines⟩ := exists_statementListLines_eq isLast
      have length_eq := congrArg List.length covers
      rw [lines, List.flatMap_append, List.length_append,
        List.length_map] at length_eq
      rw [lines]
      cases last with
      | version version =>
          have three : (front.flatMap PlannedLine.contents).length =
              commented.length - 3 := by
            simp only [lastLine, List.flatMap_singleton,
              PlannedLine.contents_tokens, VersionStatement.tokens,
              List.length_cons, List.length_nil] at length_eq
            omega
          have whole : (commented.drop (commented.length - 3)).take
              version.tokens.length =
                commented.drop (commented.length - 3) := by
            refine List.take_of_length_le ?_
            rw [List.length_drop]
            simp only [VersionStatement.tokens, List.length_cons,
              List.length_nil]
            omega
          rw [lastLine, settle_waiting_concat, three, whole,
            settledOf_waiting_eq_nil_iff]
          simp
      | block block =>
          rw [lastLine, settle_waiting_concat, settledOf_waiting_eq_nil_iff]
          have alone (here : List CommentedToken) :
              FitOnLine (here.take 1) := by
            cases here with
            | nil => simp [FitOnLine]
            | cons first others =>
                cases trailing : first.trailing <;>
                  simp [FitOnLine, trailing]
          simpa using alone _

end Layout

end WorkflowLang
