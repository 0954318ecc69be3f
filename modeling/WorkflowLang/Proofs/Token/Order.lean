import WorkflowLang.Proofs.Token.Rescanning

/-!
# The order of tokens

The tokens of a text follow each other: every token has a width, and the next
one does not begin before it ends (`Scan.pairwise_isBefore`).  A list of values
with places is therefore sorted by place once it has the order of their tokens.
-/

namespace WorkflowLang

namespace Position

theorem le_right (position : Position) (width : Nat) :
    position ≤ position.right width :=
  Or.inr ⟨rfl, Nat.le_add_right _ _⟩

theorem not_right_le {position : Position} {width : Nat} (wide : 0 < width) :
    ¬position.right width ≤ position := by
  simp only [le_def, right]
  omega

theorem le_nextLine (position : Position) : position ≤ position.nextLine :=
  Or.inl (Nat.lt_succ_self _)

end Position

namespace Token

/-- One token ends before another begins. -/
def IsBefore (first second : Token) : Prop :=
  first.span.finish ≤ second.span.start

/-- A token stands on one line and has a width. -/
def IsWide (token : Token) : Prop :=
  ∃ width, 0 < width ∧ token.span.finish = token.span.start.right width

theorem IsWide.start_le_finish {token : Token} (wide : token.IsWide) :
    token.span.start ≤ token.span.finish := by
  obtain ⟨width, -, finish⟩ := wide
  rw [finish]
  exact token.span.start.le_right width

/-- Of two wide tokens the later one does not begin first. -/
theorem IsBefore.not_start_le {first second : Token}
    (before : first.IsBefore second) (wide : first.IsWide) :
    ¬second.span.start ≤ first.span.start := by
  obtain ⟨width, positive, finish⟩ := wide
  rw [IsBefore, finish] at before
  exact fun le => Position.not_right_le positive
    (Position.le_trans before le)

/-- Tokens that follow each other stand in different places. -/
theorem nodup_spans {tokens : List Token}
    (follows : tokens.Pairwise fun first second =>
      ¬second.span.start ≤ first.span.start) :
    (tokens.map Token.span).Nodup := by
  apply List.pairwise_map.mpr
  apply follows.imp
  intro first second later same
  rw [same] at later
  exact later (Position.le_refl _)

end Token

namespace Lexeme

theorem isWide_toToken_cut (position : Position) (character : Char)
    (rest : List Char) :
    ((cut position character rest).toToken position).IsWide := by
  refine ⟨_, ?_, rfl⟩
  have nonempty := characters_cut_ne_nil position character rest
  cases characters : (cut position character rest).characters with
  | nil => exact absurd characters nonempty
  | cons first others =>
      rw [Text.units_cons]
      exact Nat.add_pos_left (Text.unitWidth_pos first) _

end Lexeme

namespace Scan

theorem isWide_of_mem {position : Position} {text : List Char} {token : Token}
    (member : token ∈ (scanFrom position text).tokens) : token.IsWide := by
  obtain ⟨place, character, rest, _, rfl, _⟩ := exists_cut_of_mem member
  exact Lexeme.isWide_toToken_cut place character rest

theorem finish_of_mem {position : Position} {text : List Char} {token : Token}
    (member : token ∈ (scanFrom position text).tokens) :
    token.span.finish =
      token.span.start.right (Text.units token.text.toList) := by
  obtain ⟨place, character, rest, -, rfl, -⟩ := exists_cut_of_mem member
  simp [Lexeme.toToken]

/-- No token begins before the text does. -/
theorem le_start_of_mem {position : Position} {text : List Char}
    {token : Token} (member : token ∈ (scanFrom position text).tokens) :
    position ≤ token.span.start := by
  fun_induction scanFrom position text with
  | case1 => simp at member
  | case2 position _ inductionHypothesis =>
      exact Position.le_trans position.le_nextLine (inductionHypothesis member)
  | case3 position _ _ _ _ inductionHypothesis =>
      exact Position.le_trans position.le_nextLine (inductionHypothesis member)
  | case4 position _ _ _ _ _ inductionHypothesis =>
      exact Position.le_trans (position.le_right 1)
        (inductionHypothesis member)
  | case5 position _ _ _ _ _ lexeme finish found others
      inductionHypothesis =>
      rcases List.mem_cons.mp member with rfl | isLater
      · exact Position.le_refl _
      · exact Position.le_trans (position.le_right _)
          (inductionHypothesis isLater)

/-- The tokens of a text follow each other. -/
theorem pairwise_isBefore (position : Position) (text : List Char) :
    (scanFrom position text).tokens.Pairwise Token.IsBefore := by
  fun_induction scanFrom position text with
  | case1 => exact List.Pairwise.nil
  | case2 _ _ inductionHypothesis => exact inductionHypothesis
  | case3 _ _ _ _ _ inductionHypothesis => exact inductionHypothesis
  | case4 _ _ _ _ _ _ inductionHypothesis => exact inductionHypothesis
  | case5 _ _ _ _ _ _ _ _ _ _ inductionHypothesis =>
      refine List.pairwise_cons.mpr ⟨fun token member => ?_,
        inductionHypothesis⟩
      exact le_start_of_mem member

theorem pairwise_start (position : Position) (text : List Char) :
    (scanFrom position text).tokens.Pairwise fun first second =>
      ¬second.span.start ≤ first.span.start := by
  apply (pairwise_isBefore position text).imp_of_mem
  intro first second isFirst _ before
  exact before.not_start_le (isWide_of_mem isFirst)

end Scan

/-- Sorting by place finds the order in which places increase. -/
theorem mergeSort_eq_of_perm {Placed : Type} (start : Placed → Position)
    {grouped ordered : List Placed} (same : grouped.Perm ordered)
    (increasing : ordered.Pairwise
      fun first second => ¬start second ≤ start first) :
    grouped.mergeSort
        (fun first second => decide (start first ≤ start second)) =
      ordered := by
  refine List.Perm.eq_of_pairwise ?_
    (List.pairwise_mergeSort (fun first second third => ?_)
      (fun first second => ?_) grouped)
    (increasing.imp fun {first second} notLe => ?_)
    ((List.mergeSort_perm _ _).trans same)
  · have distinct : ∀ first ∈ ordered, ∀ second ∈ ordered,
        start first ≤ start second → start second ≤ start first →
          first = second := by
      refine List.Pairwise.forall_of_forall_of_flip
        (fun _ _ _ _ => rfl) ?_ ?_
      · exact increasing.imp fun notLe _ le => absurd le notLe
      · exact increasing.imp fun notLe le _ => absurd le notLe
    intro first second firstMember secondMember firstLe secondLe
    have isMember : first ∈ ordered :=
      same.mem_iff.mp (List.mem_mergeSort.mp firstMember)
    exact distinct first isMember second secondMember
      (of_decide_eq_true firstLe) (of_decide_eq_true secondLe)
  · simp only [decide_eq_true_eq]
    exact Position.le_trans
  · rw [Bool.or_eq_true, decide_eq_true_eq, decide_eq_true_eq]
    exact Position.le_total _ _
  · rw [decide_eq_true_eq]
    exact (Position.le_total _ _).resolve_right notLe

end WorkflowLang
