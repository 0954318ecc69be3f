import WorkflowLang.Proofs.Layout.Findings

/-!
# Where planned lines stand

The tree of a layout has the plan of the text, and its tokens stand where the
settled lines are printed.  So the plan of the tree of a layout is known in full
(`Compilation.treeLines_eq_standing`), and with it the line and the column of each
token (`Layout.exists_line_of_mem_standing`).
-/

namespace WorkflowLang
namespace Layout

/-! ## The shape of a plan -/

/-- What a planned line is apart from its tokens. -/
def PlannedLine.shape : PlannedLine → Option (Nat × Nat × Nat)
  | .blank => none
  | .tokens depth commentDepth width _ => some (depth, commentDepth, width)

def SettledLine.shape : SettledLine → Option (Nat × Nat × Nat)
  | .blank => none
  | .line depth commentDepth width _ _ _ => some (depth, commentDepth, width)

theorem PlannedLine.eq_of_shape_eq {first second : PlannedLine}
    (shape : first.shape = second.shape)
    (contents : first.contents = second.contents) : first = second := by
  cases first <;> cases second <;> simp_all [PlannedLine.shape]

/-- Plans of one shape with the same tokens on each line are the same. -/
theorem plan_eq_of_shapes {first second : List PlannedLine}
    (shapes : first.map PlannedLine.shape = second.map PlannedLine.shape)
    (contents : first.map PlannedLine.contents =
      second.map PlannedLine.contents) : first = second := by
  induction first generalizing second with
  | nil => exact (List.map_eq_nil_iff.mp shapes.symm).symm
  | cons line others inductionHypothesis =>
      cases second with
      | nil => simp at shapes
      | cons other rest =>
          obtain ⟨shape, shapes⟩ := List.cons.inj shapes
          obtain ⟨content, contents⟩ := List.cons.inj contents
          rw [PlannedLine.eq_of_shape_eq shape content,
            inductionHypothesis shapes contents]

theorem shape_mapTokens (view : Token → Token) (line : PlannedLine) :
    (line.mapTokens view).shape = line.shape := by
  cases line <;> rfl

theorem map_shape_settle (pending : List String)
    (commented : List CommentedToken) (plan : List PlannedLine) :
    (settle pending commented plan).1.map SettledLine.shape =
      plan.map PlannedLine.shape := by
  induction plan generalizing pending commented with
  | nil => rfl
  | cons line others inductionHypothesis =>
      cases line with
      | blank => exact congrArg (_ :: ·) (inductionHypothesis pending commented)
      | tokens => exact congrArg (_ :: ·) (inductionHypothesis _ _)

/-! ## Settled lines in their places -/

/-- A settled line as a planned one, with its tokens where they stand when it is
printed from a line on. -/
def SettledLine.standing (indent : String) (number : Nat)
    (line : SettledLine) : PlannedLine :=
  match line.shape with
  | none => .blank
  | some (depth, commentDepth, width) =>
      .tokens depth commentDepth width (Token.withoutComments
        (TokenLine.placedFrom indent number line.lines))

def standing (indent : String) (number : Nat) :
    List SettledLine → List PlannedLine
  | [] => []
  | line :: others =>
      line.standing indent number ::
        standing indent (number + line.lines.length) others

theorem map_shape_standing (indent : String) (number : Nat)
    (settled : List SettledLine) :
    (standing indent number settled).map PlannedLine.shape =
      settled.map SettledLine.shape := by
  induction settled generalizing number with
  | nil => rfl
  | cons line others inductionHypothesis =>
      rw [standing, List.map_cons, List.map_cons, inductionHypothesis]
      cases line <;> rfl

theorem map_contents_standing (indent : String) (number : Nat)
    (settled : List SettledLine) :
    (standing indent number settled).map PlannedLine.contents =
      rows indent number settled := by
  induction settled generalizing number with
  | nil => rfl
  | cons line others inductionHypothesis =>
      rw [standing, rows, List.map_cons, inductionHypothesis]
      cases line <;> rfl

theorem contents_standing (indent : String) (number : Nat)
    (settled : List SettledLine) :
    (standing indent number settled).flatMap PlannedLine.contents =
      Token.withoutComments (TokenLine.placedFrom indent number
        (settled.flatMap SettledLine.lines)) := by
  rw [List.flatMap_def, map_contents_standing, flatten_rows]

/-- The parts of a plan are where the parts of the settled lines are printed. -/
theorem standing_eq_append {indent : String} {number : Nat}
    {settled : List SettledLine} {front back : List PlannedLine}
    (split : standing indent number settled = front ++ back) :
    ∃ before after, settled = before ++ after ∧
      standing indent number before = front ∧
        standing indent
          (number + (before.flatMap SettledLine.lines).length) after =
            back := by
  induction front generalizing number settled with
  | nil => exact ⟨[], settled, rfl, rfl, split⟩
  | cons line front inductionHypothesis =>
      cases settled with
      | nil => simp [standing] at split
      | cons first others =>
          obtain ⟨here, behind⟩ := List.cons.inj split
          obtain ⟨before, after, rfl, isFront, isBack⟩ :=
            inductionHypothesis behind
          refine ⟨first :: before, after, rfl, ?_, ?_⟩
          · rw [standing, here, isFront]
          · rwa [List.flatMap_cons, List.length_append, ← Nat.add_assoc]

/-- The tokens of a settled line stand on the line behind its comments. -/
theorem standing_line (indent : String) (number depth commentDepth width : Nat)
    (before : List String) (planned : List Token) (comment : Option String) :
    (SettledLine.line depth commentDepth width before planned comment).standing
        indent number =
      .tokens depth commentDepth width (Token.withoutComments
        (TokenLine.placed indent (number + before.length) ⟨depth, width,
          planned ++ (comment.map commentToken).toList⟩)) := by
  have comments : Token.withoutComments (TokenLine.placedFrom indent number
      (before.map (TokenLine.ofComment commentDepth))) = [] := by
    refine List.filter_eq_nil_iff.mpr fun token member => ?_
    have kind := (placedFrom_comments indent number commentDepth before).1
      token member
    simp [kind]
  rw [SettledLine.standing, SettledLine.shape, SettledLine.lines,
    placedFrom_append, Token.withoutComments_append, comments,
    List.length_map]
  simp [TokenLine.placedFrom]

/-- Each planned line is one of the printed lines, in its place. -/
theorem exists_line_of_mem_standing {indent : String} {number : Nat}
    {settled : List SettledLine} (sound : ∀ line ∈ settled, line.IsSound)
    {depth commentDepth width : Nat} {planned : List Token}
    (member : .tokens depth commentDepth width planned ∈
      standing indent number settled) :
    ∃ index first others,
      (settled.flatMap SettledLine.lines)[index]? =
        some ⟨depth, width, first :: others⟩ ∧
      first.kind ≠ .comment ∧
      planned = Token.withoutComments (TokenLine.placed indent
        (number + index) ⟨depth, width, first :: others⟩) := by
  induction settled generalizing number with
  | nil => simp [standing] at member
  | cons line others inductionHypothesis =>
      obtain ⟨here, behind⟩ := List.forall_mem_cons.mp sound
      rcases List.mem_cons.mp member with isHere | isLater
      · cases line with
        | blank => contradiction
        | line _ _ _ before contents comment =>
            rw [standing_line] at isHere
            injection isHere with sameDepth _ sameWidth samePlanned
            subst sameDepth sameWidth
            obtain ⟨first, rest, rfl⟩ :=
              List.exists_cons_of_ne_nil here.isFilled
            refine ⟨before.length, first,
              rest ++ (comment.map commentToken).toList, ?_,
              here.notComment first List.mem_cons_self, samePlanned⟩
            rw [List.flatMap_cons, SettledLine.lines, List.append_assoc,
              List.getElem?_append_right (by simp), List.length_map,
              Nat.sub_self]
            rfl
      · obtain ⟨index, first, rest, isLine, plain, place⟩ :=
          inductionHypothesis behind isLater
        refine ⟨line.lines.length + index, first, rest, ?_, plain, ?_⟩
        · rw [List.flatMap_cons, List.getElem?_append_right
            (Nat.le_add_right _ _), Nat.add_sub_cancel_left, isLine]
        · rw [place, Nat.add_assoc]

end Layout

namespace Compilation

open Layout (PlannedLine)

variable {text : String}

theorem isSound_settledLines
    (clean : (ofText text).hasSyntaxErrors = false) :
    ∀ line ∈ (settledLines text).1, line.IsSound :=
  (fits clean).isSound

/-- The plan of the tree of a layout is where its settled lines stand. -/
theorem treeLines_eq_standing (clean : (ofText text).hasSyntaxErrors = false)
    {indent : String} (isIndent : IsIndent indent) :
    Layout.treeLines (ofText (layoutOf text indent)).tree =
      Layout.standing indent 0 (settledLines text).1 := by
  apply Layout.plan_eq_of_shapes
  · have planned := congrArg (List.map PlannedLine.shape)
      (treeLines_layoutOf clean isIndent)
    simp only [List.map_map, Function.comp_def,
      Layout.shape_mapTokens] at planned
    rw [planned, Layout.map_shape_standing, settledLines,
      Layout.map_shape_settle]
  · rw [rows_layoutOf clean isIndent, Layout.map_contents_standing]

end Compilation

end WorkflowLang
