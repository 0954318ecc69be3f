import WorkflowLang.Layout
import WorkflowLang.Proofs.Layout.Comments
import WorkflowLang.Proofs.Layout.Plan

/-!
# Where comments settle

Weaving decides for each planned line which comments stand before it and which
one ends it, and only then prints the line.  The decision is a function of its
own here, `settle`.  It loses no comment, and it confirms itself: when every
comment stands where it settled, settling again changes nothing.
-/

namespace WorkflowLang
namespace Layout

/-- A planned line with the comments before it and the comment at its end. -/
inductive SettledLine where
  | blank
  | line (depth commentDepth width : Nat) (before : List String)
      (planned : List Token) (comment : Option String)

/-- The comments before the first of some tokens. -/
def leadingOf (here : List CommentedToken) : List String :=
  (here.head?.map CommentedToken.leading).getD []

/-- Where the other comments of some tokens on one line go. -/
def settledOf (here : List CommentedToken) : Option String × List String :=
  settleComments (here.head?.bind CommentedToken.trailing) here.tail

/-- The planned lines with their comments, and the comments that wait at the
end. -/
def settle (pending : List String) (commented : List CommentedToken) :
    List PlannedLine → List SettledLine × List String
  | [] => ([], pending)
  | .blank :: others =>
      let settled := settle pending commented others
      (.blank :: settled.1, settled.2)
  | .tokens depth commentDepth width planned :: others =>
      let here := commented.take planned.length
      let settled :=
        settle (settledOf here).2 (commented.drop planned.length) others
      (.line depth commentDepth width (pending ++ leadingOf here) planned
          (settledOf here).1 :: settled.1,
        settled.2)

namespace SettledLine

def printed : SettledLine → List PrintedLine
  | .blank => [PrintedLine.blank]
  | .line depth commentDepth width before planned comment =>
      before.map (PrintedLine.ofComment commentDepth) ++
        [⟨depth, lineText width planned, comment⟩]

def comments : SettledLine → List String
  | .blank => []
  | .line _ _ _ before _ comment => before ++ comment.toList

def contents : SettledLine → List Token
  | .blank => []
  | .line _ _ _ _ planned _ => planned

def mapTokens (view : Token → Token) : SettledLine → SettledLine
  | .blank => .blank
  | .line depth commentDepth width before planned comment =>
      .line depth commentDepth width before (planned.map view) comment

end SettledLine

/-- Weaving is settling and printing. -/
theorem weave_eq_settle (pending : List String)
    (commented : List CommentedToken) (plan : List PlannedLine) :
    weave pending commented plan =
      ((settle pending commented plan).1.flatMap SettledLine.printed,
        (settle pending commented plan).2) := by
  induction plan generalizing pending commented with
  | nil => rfl
  | cons line others inductionHypothesis =>
      cases line with
      | blank =>
          simp [weave, settle, SettledLine.printed, inductionHypothesis]
      | tokens depth commentDepth width planned =>
          simp [weave, settle, SettledLine.printed, inductionHypothesis,
            leadingOf, settledOf]

/-! ## No comment is lost -/

theorem settleComments_perm (comment : Option String)
    (tokens : List CommentedToken) :
    ((settleComments comment tokens).1.toList ++
      (settleComments comment tokens).2).Perm
        (comment.toList ++ tokens.flatMap CommentedToken.comments) := by
  induction tokens generalizing comment with
  | nil => simp [settleComments]
  | cons token others inductionHypothesis =>
      cases comment with
      | none =>
          have moved := (List.perm_append_comm_assoc
            (settleComments token.trailing others).1.toList token.leading
              (settleComments token.trailing others).2).trans
            ((inductionHypothesis token.trailing).append_left token.leading)
          simpa [settleComments, CommentedToken.comments] using moved
      | some kept =>
          have moved := (List.perm_append_comm_assoc
            (settleComments (some kept) others).1.toList
              (token.leading ++ token.trailing.toList)
              (settleComments (some kept) others).2).trans
            ((inductionHypothesis (some kept)).append_left
              (token.leading ++ token.trailing.toList))
          refine moved.trans ?_
          have swapped := List.perm_append_comm_assoc
            (token.leading ++ token.trailing.toList) [kept]
              (others.flatMap CommentedToken.comments)
          simpa [settleComments, CommentedToken.comments] using swapped

theorem settledOf_perm (here : List CommentedToken) :
    (leadingOf here ++ ((settledOf here).1.toList ++
      (settledOf here).2)).Perm
        (here.flatMap CommentedToken.comments) := by
  cases here with
  | nil => exact List.Perm.nil
  | cons first others =>
      have moved := (settleComments_perm first.trailing others).append_left
        first.leading
      simpa [leadingOf, settledOf, CommentedToken.comments] using moved

/-- All comments settle or wait. -/
theorem settle_perm (pending : List String)
    {commented : List CommentedToken} {plan : List PlannedLine}
    (covered : commented.length ≤
      (plan.flatMap PlannedLine.contents).length) :
    ((settle pending commented plan).1.flatMap SettledLine.comments ++
      (settle pending commented plan).2).Perm
        (pending ++ commented.flatMap CommentedToken.comments) := by
  induction plan generalizing pending commented with
  | nil =>
      obtain rfl : commented = [] := by simpa using covered
      simp [settle]
  | cons line others inductionHypothesis =>
      cases line with
      | blank =>
          have behind := inductionHypothesis pending covered
          simpa [settle, SettledLine.comments] using behind
      | tokens depth commentDepth width planned =>
          have rest : (commented.drop planned.length).length ≤
              (others.flatMap PlannedLine.contents).length := by
            simp only [List.flatMap_cons, PlannedLine.contents_tokens,
              List.length_append] at covered
            rw [List.length_drop]
            omega
          have whole := congrArg
            (List.flatMap CommentedToken.comments)
            (List.take_append_drop planned.length commented)
          rw [List.flatMap_append] at whole
          rw [← whole]
          simp only [settle, List.flatMap_cons, SettledLine.comments]
          generalize commented.take planned.length = here
          generalize commented.drop planned.length = later at rest ⊢
          have behind := inductionHypothesis (settledOf here).2 rest
          have settled := (settledOf_perm here).append_right
            (later.flatMap CommentedToken.comments)
          have joined := behind.append_left
            (leadingOf here ++ (settledOf here).1.toList)
          simp only [List.append_assoc] at joined settled ⊢
          exact (joined.trans settled).append_left pending

theorem contents_settle (pending : List String)
    (commented : List CommentedToken) (plan : List PlannedLine) :
    (settle pending commented plan).1.flatMap SettledLine.contents =
      plan.flatMap PlannedLine.contents := by
  induction plan generalizing pending commented with
  | nil => rfl
  | cons line others inductionHypothesis =>
      cases line with
      | blank => exact inductionHypothesis pending commented
      | tokens depth commentDepth width planned =>
          exact congrArg (planned ++ ·) (inductionHypothesis _ _)

theorem settle_mapTokens (view : Token → Token) (pending : List String)
    (commented : List CommentedToken) (plan : List PlannedLine) :
    settle pending commented (plan.map (PlannedLine.mapTokens view)) =
      ((settle pending commented plan).1.map (SettledLine.mapTokens view),
        (settle pending commented plan).2) := by
  induction plan generalizing pending commented with
  | nil => rfl
  | cons line others inductionHypothesis =>
      cases line with
      | blank =>
          simp [settle, PlannedLine.mapTokens, SettledLine.mapTokens,
            inductionHypothesis]
      | tokens depth commentDepth width planned =>
          simp [settle, PlannedLine.mapTokens, SettledLine.mapTokens,
            inductionHypothesis]

/-! ## Settling again -/

/-- The comments before a token and the one behind it. -/
def CommentedToken.besides (token : CommentedToken) :
    List String × Option String :=
  (token.leading, token.trailing)

/-- What stands beside the tokens of a line when some comments stand before it
and one at its end. -/
def besidesOf (before : List String) (comment : Option String) :
    List Token → List (List String × Option String)
  | [] => []
  | [_] => [(before, comment)]
  | _ :: next :: others =>
      (before, none) :: besidesOf [] comment (next :: others)

def SettledLine.besides : SettledLine → List (List String × Option String)
  | .blank => []
  | .line _ _ _ before planned comment => besidesOf before comment planned

theorem length_besidesOf (before : List String) (comment : Option String)
    (planned : List Token) :
    (besidesOf before comment planned).length = planned.length := by
  fun_induction besidesOf before comment planned with
  | case1 => rfl
  | case2 => rfl
  | case3 _ _ _ _ inductionHypothesis => simp [inductionHypothesis]

/-- Comments in their places stay there. -/
theorem settleComments_besidesOf {planned : List Token}
    (filled : planned ≠ []) {comment : Option String}
    {tokens : List CommentedToken}
    (placed : tokens.map CommentedToken.besides =
      besidesOf [] comment planned) :
    settleComments none tokens = (comment, []) := by
  induction planned generalizing tokens with
  | nil => exact absurd rfl filled
  | cons token others inductionHypothesis =>
      cases tokens with
      | nil => cases others <;> simp [besidesOf] at placed
      | cons first rest =>
          cases others with
          | nil =>
              simp only [besidesOf, List.map_cons, List.cons.injEq,
                List.map_eq_nil_iff, CommentedToken.besides,
                Prod.mk.injEq] at placed
              obtain ⟨⟨leading, trailing⟩, rfl⟩ := placed
              simp [settleComments, leading, trailing]
          | cons next others =>
              simp only [besidesOf, List.map_cons, List.cons.injEq] at placed
              obtain ⟨here, behind⟩ := placed
              simp only [CommentedToken.besides, Prod.mk.injEq] at here
              have settled := inductionHypothesis (by simp) behind
              simp [settleComments, here.1, here.2, settled]

theorem settledOf_besidesOf {planned : List Token} (filled : planned ≠ [])
    {before : List String} {comment : Option String}
    {here : List CommentedToken}
    (placed : here.map CommentedToken.besides =
      besidesOf before comment planned) :
    leadingOf here = before ∧ settledOf here = (comment, []) := by
  obtain ⟨token, others, rfl⟩ := List.exists_cons_of_ne_nil filled
  cases here with
  | nil => cases others <;> simp [besidesOf] at placed
  | cons first rest =>
      cases others with
      | nil =>
          simp only [besidesOf, List.map_cons, List.cons.injEq,
            List.map_eq_nil_iff, CommentedToken.besides,
            Prod.mk.injEq] at placed
          obtain ⟨⟨leading, trailing⟩, rfl⟩ := placed
          simp [leadingOf, settledOf, settleComments, leading, trailing]
      | cons next others =>
          simp only [besidesOf, List.map_cons, List.cons.injEq] at placed
          obtain ⟨firstPlaced, behind⟩ := placed
          simp only [CommentedToken.besides, Prod.mk.injEq] at firstPlaced
          have settled := settleComments_besidesOf (by simp) behind
          simp [leadingOf, settledOf, firstPlaced.1, firstPlaced.2, settled]

/-- Settling comments that have settled changes nothing, and none waits. -/
theorem settle_again {plan : List PlannedLine}
    (filled : ∀ line ∈ plan, line.IsFilled) {pending : List String}
    {commented again : List CommentedToken}
    (placed : again.map CommentedToken.besides =
      (settle pending commented plan).1.flatMap SettledLine.besides) :
    settle [] again plan = ((settle pending commented plan).1, []) := by
  induction plan generalizing pending commented again with
  | nil => rfl
  | cons line others inductionHypothesis =>
      have othersFilled : ∀ other ∈ others, other.IsFilled :=
        fun other member => filled other (List.mem_cons_of_mem _ member)
      cases line with
      | blank =>
          have behind := inductionHypothesis othersFilled placed
          simp [settle, behind]
      | tokens depth commentDepth width planned =>
          obtain ⟨here, later, rfl, isHere, isLater⟩ :=
            List.map_eq_append_iff.mp placed
          have length_eq : here.length = planned.length := by
            rw [← List.length_map CommentedToken.besides, isHere]
            exact length_besidesOf _ _ planned
          obtain ⟨leading, settled⟩ := settledOf_besidesOf
            (filled _ List.mem_cons_self) isHere
          have behind := inductionHypothesis othersFilled isLater
          simp [settle, ← length_eq, leading, settled, behind]

end Layout

end WorkflowLang
