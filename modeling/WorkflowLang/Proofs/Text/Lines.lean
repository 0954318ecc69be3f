import WorkflowLang.Proofs.Token.Placement

/-!
# The lines of a text

`Text.SplitsInto` says what the lines of a text are without saying how they are
found.  The lines that are found are these (`Text.splitsInto_lines`), and a
stretch of one line stands where walking over the text before it leads
(`Text.exists_lines_eq`).
-/

namespace WorkflowLang
namespace Text

/-- What ends a line. -/
def IsBreak (ending : List Char) : Prop :=
  ending = ['\r', '\n'] ∨ ending = ['\r'] ∨ ending = ['\n']

/-- A text has these lines: each without a break in it and followed by a break,
except that the last one may end with the text unless it is empty. -/
inductive SplitsInto : List Char → List (List Char) → Prop
  | nothing : SplitsInto [] []
  | last {line : List Char} :
      line ≠ [] →
      (∀ character ∈ line, isLineBreak character = false) →
        SplitsInto line [line]
  | line {line ending rest : List Char} {others : List (List Char)} :
      (∀ character ∈ line, isLineBreak character = false) →
      IsBreak ending →
      (ending = ['\r'] → rest.head? ≠ some '\n') →
      SplitsInto rest others →
        SplitsInto (line ++ ending ++ rest) (line :: others)

/-- A text whose first character breaks no line has it in the first line. -/
theorem SplitsInto.cons {character : Char}
    (notBreak : isLineBreak character = false) {rest line : List Char}
    {others : List (List Char)} (splits : SplitsInto rest (line :: others)) :
    SplitsInto (character :: rest) ((character :: line) :: others) := by
  generalize lines : line :: others = found at splits
  cases splits with
  | nothing => contradiction
  | last nonempty oneLine =>
      obtain ⟨rfl, rfl⟩ := List.cons.inj lines
      exact .last (List.cons_ne_nil _ _)
        (List.forall_mem_cons.mpr ⟨notBreak, oneLine⟩)
  | line oneLine isBreak whole behind =>
      obtain ⟨rfl, rfl⟩ := List.cons.inj lines
      exact @SplitsInto.line (character :: line) _ _ _
        (List.forall_mem_cons.mpr ⟨notBreak, oneLine⟩) isBreak whole behind

theorem SplitsInto.eq_nil {text : List Char} (splits : SplitsInto text []) :
    text = [] := by
  cases splits
  rfl

/-- No line has a break in it. -/
theorem SplitsInto.oneLine {text : List Char} {found : List (List Char)}
    (splits : SplitsInto text found) :
    ∀ line ∈ found, ∀ character ∈ line, isLineBreak character = false := by
  induction splits with
  | nothing => exact List.forall_mem_nil _
  | last _ oneLine => exact List.forall_mem_singleton.mpr oneLine
  | line oneLine _ _ _ inductionHypothesis =>
      exact List.forall_mem_cons.mpr ⟨oneLine, inductionHypothesis⟩

/-- Every line is a part of the text. -/
theorem SplitsInto.isInfix {text : List Char} {found : List (List Char)}
    (splits : SplitsInto text found) : ∀ line ∈ found, line <:+: text := by
  induction splits with
  | nothing => exact List.forall_mem_nil _
  | last _ _ => exact List.forall_mem_singleton.mpr (List.infix_refl _)
  | @line line ending rest _ _ _ _ _ inductionHypothesis =>
      refine List.forall_mem_cons.mpr ⟨?_, fun other isOther => ?_⟩
      · rw [List.append_assoc]
        exact (List.prefix_append line (ending ++ rest)).isInfix
      · exact (inductionHypothesis other isOther).trans
          (List.suffix_append (line ++ ending) rest).isInfix

theorem splitsInto_lines (text : List Char) :
    SplitsInto text (lines text) := by
  fun_induction lines text with
  | case1 => exact .nothing
  | case2 rest inductionHypothesis =>
      exact @SplitsInto.line [] ['\r', '\n'] rest _ (by simp) (Or.inl rfl)
        (by simp) inductionHypothesis
  | case3 character rest notPair isBreak inductionHypothesis =>
      refine @SplitsInto.line [] [character] rest _ (by simp) ?_ ?_
        inductionHypothesis
      · simpa [IsBreak, isLineBreak] using isBreak
      · rintro isReturn feed
        obtain ⟨others, rfl⟩ := List.head?_eq_some_iff.mp feed
        exact notPair others (List.singleton_inj.mp isReturn) rfl
  | case4 character rest notPair notBreak noLine inductionHypothesis =>
      rw [noLine] at inductionHypothesis
      obtain rfl := inductionHypothesis.eq_nil
      exact .last (by simp) (by simpa using notBreak)
  | case5 character rest notPair notBreak line others found
      inductionHypothesis =>
      rw [found] at inductionHypothesis
      exact inductionHypothesis.cons (Bool.eq_false_iff.mpr notBreak)

theorem lines_cons {character : Char}
    (notBreak : isLineBreak character = false) (rest : List Char) :
    lines (character :: rest) =
      (character :: (lines rest).headD []) :: (lines rest).tail := by
  rw [lines]
  · rw [if_neg (Bool.eq_false_iff.mp notBreak)]
    cases lines rest <;> rfl
  · rintro others rfl
    exact absurd notBreak (by decide)

/-- The first line is what the text begins with. -/
theorem headD_lines_prefix (text : List Char) :
    (lines text).headD [] <+: text := by
  fun_induction lines text with
  | case1 => exact List.nil_prefix
  | case2 => exact List.nil_prefix
  | case3 => exact List.nil_prefix
  | case4 character rest =>
      exact (List.cons_prefix_cons).mpr ⟨rfl, List.nil_prefix⟩
  | case5 character rest notPair notBreak line others found
      inductionHypothesis =>
      rw [found] at inductionHypothesis
      exact List.cons_prefix_cons.mpr ⟨rfl, inductionHypothesis⟩

theorem lines_append {marked : List Char} (nonempty : marked ≠ [])
    (oneLine : ∀ character ∈ marked, isLineBreak character = false)
    (back : List Char) :
    lines (marked ++ back) =
      (marked ++ (lines back).headD []) :: (lines back).tail := by
  induction marked with
  | nil => exact absurd rfl nonempty
  | cons character others inductionHypothesis =>
      rw [List.forall_mem_cons] at oneLine
      rw [List.cons_append, lines_cons oneLine.1]
      cases others with
      | nil => rfl
      | cons next others =>
          rw [inductionHypothesis (List.cons_ne_nil _ _) oneLine.2]
          rfl

theorem lines_break {ending rest : List Char} (isBreak : IsBreak ending)
    (whole : ending = ['\r'] → rest.head? ≠ some '\n') :
    lines (ending ++ rest) = [] :: lines rest := by
  rcases isBreak with rfl | rfl | rfl
  · rfl
  · rw [List.singleton_append, lines, if_pos (by decide)]
    rintro others - rfl
    exact whole rfl rfl
  · rfl

/-- The lines of a text are determined by where its breaks are. -/
theorem splitsInto_iff {text : List Char} {found : List (List Char)} :
    SplitsInto text found ↔ lines text = found := by
  refine ⟨fun splits => ?_, fun same => same ▸ splitsInto_lines text⟩
  induction splits with
  | nothing => rfl
  | @last line nonempty oneLine =>
      simpa [lines] using lines_append nonempty oneLine []
  | @line line ending rest others oneLine isBreak whole _ inductionHypothesis =>
      have behind := lines_break isBreak whole
      rw [inductionHypothesis] at behind
      cases line with
      | nil => exact behind
      | cons first line =>
          rw [List.append_assoc,
            lines_append (List.cons_ne_nil _ _) oneLine, behind]
          simp

/-- Some text before a stretch of one line divides into what is passed and what
stands before the stretch on its line. -/
theorem exists_lines_eq {marked : List Char} (nonempty : marked ≠ [])
    (oneLine : ∀ character ∈ marked, isLineBreak character = false)
    (back : List Char) (position : Position) (front : List Char) :
    ∃ passed above before,
      passed ++ before = front ∧ (above = [] → passed = []) ∧
      lines (front ++ (marked ++ back)) =
        above ++ (before ++ (marked ++ (lines back).headD [])) ::
          (lines back).tail ∧
      position.advance front =
        ⟨position.line + above.length,
          (if above = [] then position.column else 0) + units before⟩ := by
  fun_induction Position.advance position front with
  | case1 position =>
      exact ⟨[], [], [], rfl, fun _ => rfl,
        lines_append nonempty oneLine back, rfl⟩
  | case2 position others inductionHypothesis =>
      obtain ⟨passed, above, before, rfl, -, found, place⟩ :=
        inductionHypothesis
      refine ⟨'\r' :: '\n' :: passed, [] :: above, before, rfl, by simp,
        congrArg (List.cons []) found, ?_⟩
      rw [place]
      simp [Position.nextLine]
      omega
  | case3 position character others notPair isBreak inductionHypothesis =>
      obtain ⟨passed, above, before, rfl, -, found, place⟩ :=
        inductionHypothesis
      refine ⟨character :: passed, [] :: above, before, rfl, by simp, ?_, ?_⟩
      · rw [List.cons_append, lines, if_pos isBreak]
        · exact congrArg (List.cons []) found
        · -- What follows the break is no line feed, in the stretch neither.
          rintro rest rfl begins
          cases others : passed ++ before with
          | nil =>
              obtain ⟨first, marked, rfl⟩ := List.exists_cons_of_ne_nil nonempty
              rw [others] at begins
              obtain ⟨rfl, -⟩ := List.cons.inj begins
              exact absurd (oneLine '\n' List.mem_cons_self) (by decide)
          | cons next others' =>
              rw [others] at begins notPair
              obtain ⟨rfl, -⟩ := List.cons.inj begins
              exact notPair _ rfl rfl
      · rw [place]
        simp [Position.nextLine]
        omega
  | case4 position character others notPair notBreak inductionHypothesis =>
      obtain ⟨passed, above, before, rfl, atStart, found, place⟩ :=
        inductionHypothesis
      have here := lines_cons (Bool.eq_false_iff.mpr notBreak)
        (passed ++ before ++ (marked ++ back))
      cases above with
      | nil =>
          obtain rfl := atStart rfl
          refine ⟨[], [], character :: before, rfl, fun _ => rfl, ?_, ?_⟩
          · exact here.trans (by rw [found]; rfl)
          · rw [place]
            simp [Position.right, Nat.add_assoc]
      | cons line above =>
          refine ⟨character :: passed, (character :: line) :: above, before,
            rfl, by simp, ?_, ?_⟩
          · exact here.trans (by rw [found]; rfl)
          · rw [place]
            simp [Position.right]

/-- The characters that a span covers: a stretch of one line, with what stands
before and behind it on its line, above and below that line, and in the text. -/
structure Stretch (text : List Char) (span : Span) where
  passed : List Char
  above : List (List Char)
  before : List Char
  marked : List Char
  after : List Char
  below : List (List Char)
  rest : List Char
  marked_ne_nil : marked ≠ []
  text_eq : passed ++ (before ++ marked ++ after) ++ rest = text
  splits : SplitsInto text (above ++ (before ++ marked ++ after) :: below)
  start_eq : span.start = ⟨above.length, units before⟩
  finish_eq : span.finish = ⟨above.length, units (before ++ marked)⟩
  start_place : endPosition (passed ++ before) = span.start
  finish_place : endPosition (passed ++ before ++ marked) = span.finish

theorem Stretch.column_lt {text : List Char} {span : Span}
    (stretch : Stretch text span) : span.start.column < span.finish.column := by
  obtain ⟨first, others, marked⟩ :=
    List.exists_cons_of_ne_nil stretch.marked_ne_nil
  have wide := unitWidth_pos first
  rw [stretch.start_eq, stretch.finish_eq, units_append, marked, units_cons]
  dsimp only
  omega

/-- Walking over a text leads to the line and the column of what stands behind
it. -/
theorem exists_stretch {front marked back : List Char}
    (nonempty : marked ≠ [])
    (oneLine : ∀ character ∈ marked, isLineBreak character = false) :
    Nonempty (Stretch (front ++ marked ++ back)
      ⟨endPosition front, endPosition (front ++ marked)⟩) := by
  obtain ⟨passed, above, before, rfl, -, found, place⟩ :=
    exists_lines_eq nonempty oneLine back Position.origin front
  obtain ⟨rest, behind⟩ := headD_lines_prefix back
  have start : endPosition (passed ++ before) =
      ⟨above.length, units before⟩ := by
    rw [endPosition, place]
    simp [Position.origin]
  exact ⟨{
    passed := passed
    above := above
    before := before
    marked := marked
    after := (lines back).headD []
    below := (lines back).tail
    rest := rest
    marked_ne_nil := nonempty
    text_eq := by
      simp only [List.append_assoc]
      rw [behind]
    splits := splitsInto_iff.mpr (by simpa using found)
    start_eq := start
    finish_eq := by
      rw [endPosition_append_right oneLine, start, units_append]
      rfl
    start_place := rfl
    finish_place := rfl }⟩

end Text
end WorkflowLang
