import WorkflowLang.Proofs.Layout.Idempotence

/-!
# White space does not matter

A layout depends on the tokens and comments of a text, on which comments stand
beside a token, and on the kind of its line breaks, but on no other place in the
text.  Two texts that agree in these are laid out alike, however they are
indented and broken into lines (`Compilation.format_ignores_space`).
-/

namespace WorkflowLang

open Layout (CommentedText SettledLine)

namespace Token

/-- Of each comment among some tokens, whether it starts on the line where the
last token before it ends, comments not counted. -/
def commentsBeside (last : Option Token) : List Token → List Bool
  | [] => []
  | token :: others =>
      if token.kind = .comment then
        last.any (fun before =>
            before.span.finish.line == token.span.start.line) ::
          commentsBeside last others
      else commentsBeside (some token) others

theorem commentsBeside_comment (last : Option Token) {comment : Token}
    (isComment : comment.kind = .comment) (others : List Token) :
    commentsBeside last (comment :: others) =
      last.any (fun before =>
          before.span.finish.line == comment.span.start.line) ::
        commentsBeside last others :=
  if_pos isComment

theorem commentsBeside_token (last : Option Token) {token : Token}
    (notComment : token.kind ≠ .comment) (others : List Token) :
    commentsBeside last (token :: others) =
      commentsBeside (some token) others :=
  if_neg notComment

end Token

namespace Layout

/-! ## Which comments belong to which token -/

namespace CommentedText

/-- Two commented texts with the same comments beside their tokens and at their
ends. -/
def SameComments (first second : CommentedText) : Prop :=
  first.tokens.map CommentedToken.besides =
      second.tokens.map CommentedToken.besides ∧
    first.closing = second.closing

theorem SameComments.cons {first second : CommentedText}
    (same : SameComments first second) {token other : CommentedToken}
    (besides : token.besides = other.besides) :
    SameComments (CommentedText.cons token first)
      (CommentedText.cons other second) := by
  refine ⟨?_, same.2⟩
  rw [tokens_cons, tokens_cons, List.map_cons, List.map_cons, besides, same.1]

/-- A comment right behind a token trails it in both texts or in neither. -/
theorem trails_iff {token next other behind : Token}
    {others rest : List Token}
    (sameKind : behind.kind = next.kind)
    (flags : Token.commentsBeside (some token) (next :: others) =
      Token.commentsBeside (some other) (behind :: rest)) :
    (next.kind = .comment ∧
        token.span.finish.line = next.span.start.line) ↔
      (behind.kind = .comment ∧
        other.span.finish.line = behind.span.start.line) := by
  rw [sameKind]
  refine and_congr_right fun isComment => ?_
  rw [Token.commentsBeside_comment _ isComment,
    Token.commentsBeside_comment _ (sameKind.trans isComment),
    List.cons.injEq, Option.any_some, Option.any_some,
    Bool.eq_iff_iff, beq_iff_eq, beq_iff_eq] at flags
  exact flags.1

/-- Comments are attached by their order among the tokens and by which of them
stand beside a token. -/
theorem attach_congr (pending : List String) {first second : List Token}
    (tokens : second.map Token.unplaced = first.map Token.unplaced)
    {last other : Option Token}
    (flags : Token.commentsBeside last first =
      Token.commentsBeside other second) :
    SameComments (attach pending first) (attach pending second) := by
  fun_induction attach pending first generalizing second last other with
  | case1 pending =>
      obtain rfl : second = [] := by simpa using tokens
      exact ⟨rfl, rfl⟩
  | case2 pending token isComment =>
      obtain ⟨_, nothing, rfl, sameKind, sameText, same⟩ :=
        map_unplaced_cons_eq tokens
      obtain rfl : nothing = [] := by simpa using same
      rw [attach, if_pos (sameKind.trans isComment), sameText]
      exact ⟨rfl, rfl⟩
  | case3 pending token notComment =>
      obtain ⟨_, nothing, rfl, sameKind, sameText, same⟩ :=
        map_unplaced_cons_eq tokens
      obtain rfl : nothing = [] := by simpa using same
      rw [attach, if_neg (sameKind ▸ notComment)]
      exact ⟨rfl, rfl⟩
  | case4 pending token next rest isComment inductionHypothesis =>
      obtain ⟨twin, behind, rfl, sameKind, sameText, same⟩ :=
        map_unplaced_cons_eq tokens
      have twinComment := sameKind.trans isComment
      rw [Token.commentsBeside_comment _ isComment,
        Token.commentsBeside_comment _ twinComment, List.cons.injEq] at flags
      rw [attach_comment pending twinComment, sameText]
      exact inductionHypothesis same flags.2
  | case5 pending token next rest notComment trails inductionHypothesis =>
      obtain ⟨twin, _, rfl, sameKind, _, same⟩ := map_unplaced_cons_eq tokens
      obtain ⟨follower, behind, rfl, nextKind, nextText, sameRest⟩ :=
        map_unplaced_cons_eq same
      have twinPlain : twin.kind ≠ .comment := sameKind ▸ notComment
      rw [Token.commentsBeside_token _ notComment,
        Token.commentsBeside_token _ twinPlain] at flags
      obtain ⟨isComment, sameLine⟩ := (trails_iff nextKind flags).mp trails
      rw [Token.commentsBeside_comment _ trails.1,
        Token.commentsBeside_comment _ isComment, List.cons.injEq] at flags
      rw [attach_trailed pending twinPlain isComment sameLine]
      refine (inductionHypothesis sameRest flags.2).cons ?_
      exact congrArg (fun text => (pending, some text)) nextText.symm
  | case6 pending token next rest notComment apart inductionHypothesis =>
      obtain ⟨twin, _, rfl, sameKind, _, same⟩ := map_unplaced_cons_eq tokens
      obtain ⟨follower, behind, rfl, nextKind, nextText, _⟩ :=
        map_unplaced_cons_eq same
      have twinPlain : twin.kind ≠ .comment := sameKind ▸ notComment
      rw [Token.commentsBeside_token _ notComment,
        Token.commentsBeside_token _ twinPlain] at flags
      rw [attach, if_neg twinPlain,
        if_neg fun trails => apart ((trails_iff nextKind flags).mpr trails)]
      exact (inductionHypothesis same flags).cons rfl

end CommentedText

/-! ## Where they settle -/

theorem settleComments_congr (comment : Option String)
    {first second : List CommentedToken}
    (same : first.map CommentedToken.besides =
      second.map CommentedToken.besides) :
    settleComments comment first = settleComments comment second := by
  induction first generalizing comment second with
  | nil =>
      obtain rfl : second = [] := by simpa using same.symm
      rfl
  | cons token others inductionHypothesis =>
      obtain ⟨next, rest, rfl, besides, behind⟩ :=
        List.map_eq_cons_iff.mp same.symm
      obtain ⟨leading, trailing⟩ := Prod.mk.inj besides
      cases comment <;>
        simp only [settleComments, leading, trailing,
          inductionHypothesis _ behind.symm]

theorem settledOf_congr {first second : List CommentedToken}
    (same : first.map CommentedToken.besides =
      second.map CommentedToken.besides) :
    leadingOf first = leadingOf second ∧
      settledOf first = settledOf second := by
  cases first with
  | nil =>
      obtain rfl : second = [] := by simpa using same.symm
      exact ⟨rfl, rfl⟩
  | cons token others =>
      obtain ⟨next, rest, rfl, besides, behind⟩ :=
        List.map_eq_cons_iff.mp same.symm
      obtain ⟨leading, trailing⟩ := Prod.mk.inj besides
      refine ⟨by simp [leadingOf, leading], ?_⟩
      simp only [settledOf, List.head?_cons, Option.bind_some, List.tail_cons,
        trailing, settleComments_congr _ behind.symm]

/-- Where comments settle is decided by what stands beside the tokens. -/
theorem settle_congr (pending : List String)
    {first second : List CommentedToken}
    (same : first.map CommentedToken.besides =
      second.map CommentedToken.besides) (plan : List PlannedLine) :
    settle pending first plan = settle pending second plan := by
  induction plan generalizing pending first second with
  | nil => rfl
  | cons line others inductionHypothesis =>
      cases line with
      | blank => simp only [settle, inductionHypothesis pending same]
      | tokens depth commentDepth width planned =>
          have here : (first.take planned.length).map
              CommentedToken.besides =
                (second.take planned.length).map CommentedToken.besides := by
            rw [List.map_take, same, List.map_take]
          have behind : (first.drop planned.length).map
              CommentedToken.besides =
                (second.drop planned.length).map CommentedToken.besides := by
            rw [List.map_drop, same, List.map_drop]
          obtain ⟨leading, settled⟩ := settledOf_congr here
          simp only [settle, leading, settled,
            inductionHypothesis (settledOf _).2 behind]

/-! ## Line breaks -/

theorem hasCarriageReturns_eq_true_iff (text : List Char) :
    hasCarriageReturns text = true ↔ ['\r', '\n'] <:+: text := by
  fun_induction hasCarriageReturns text with
  | case1 rest => exact ⟨fun _ => ⟨[], rest, rfl⟩, fun _ => rfl⟩
  | case2 character rest notBreak inductionHypothesis =>
      rw [inductionHypothesis, List.infix_cons_iff]
      refine ⟨Or.inr, fun occurs => occurs.resolve_left ?_⟩
      rintro ⟨behind, same⟩
      obtain ⟨rfl, rfl⟩ := List.cons.inj same
      exact notBreak behind rfl rfl
  | case3 => simp

theorem lineBreak_congr {first second : String}
    (same : ['\r', '\n'] <:+: first.toList ↔ ['\r', '\n'] <:+: second.toList) :
    lineBreak first = lineBreak second := by
  rw [← hasCarriageReturns_eq_true_iff, ← hasCarriageReturns_eq_true_iff,
    ← Bool.eq_iff_iff] at same
  rw [lineBreak, lineBreak, same]

end Layout

namespace Compilation

/-- Two texts that differ in white space only, where every comment stands beside
the token before it in both or in neither. -/
structure SameButSpace (first second : String) : Prop where
  tokens : (ofText first).tokens.map Token.unplaced =
    (ofText second).tokens.map Token.unplaced
  beside : Token.commentsBeside none (ofText first).tokens =
    Token.commentsBeside none (ofText second).tokens
  breaks : ['\r', '\n'] <:+: first.toList ↔ ['\r', '\n'] <:+: second.toList

variable {first second : String}

theorem SameButSpace.settledLines_eq (same : SameButSpace first second)
    (clean : (ofText first).hasSyntaxErrors = false)
    (otherClean : (ofText second).hasSyntaxErrors = false) :
    (settledLines first).1.map (SettledLine.mapTokens Token.unplaced) =
        (settledLines second).1.map (SettledLine.mapTokens Token.unplaced) ∧
      (settledLines first).2 = (settledLines second).2 ∧
        closingComments first = closingComments second := by
  obtain ⟨besides, closing⟩ : CommentedText.SameComments
      (CommentedText.ofTokens (ofText first).tokens)
      (CommentedText.ofTokens (ofText second).tokens) :=
    CommentedText.attach_congr [] same.tokens.symm same.beside
  have tokens : (Token.withoutComments (ofText first).tokens).map
      Token.unplaced =
        (Token.withoutComments (ofText second).tokens).map Token.unplaced := by
    rw [map_unplaced_withoutComments, same.tokens,
      map_unplaced_withoutComments]
  have plans := treeLines_congr clean otherClean
    (tree_congr clean otherClean tokens)
  -- The comments of the second text settle along the plan of the first.
  have moved := Layout.settle_mapTokens Token.unplaced []
    (CommentedText.ofTokens (ofText first).tokens).tokens
    (Layout.treeLines (ofText first).tree)
  rw [plans, Layout.settle_mapTokens, Layout.settle_congr [] besides,
    Prod.mk.injEq] at moved
  exact ⟨moved.1.symm, moved.2.symm, closing⟩

/-- Texts that differ in white space only have the same layout. -/
theorem format_ignores_space
    (clean : (ofText first).hasSyntaxErrors = false)
    (otherClean : (ofText second).hasSyntaxErrors = false)
    (same : SameButSpace first second) (indent : String) :
    ∃ layout, (ofText first).format? indent = some layout ∧
      (ofText second).format? indent = some layout := by
  obtain ⟨settled, waiting, closing⟩ :=
    same.settledLines_eq clean otherClean
  refine ⟨layoutOf first indent, format?_eq clean indent, ?_⟩
  rw [format?_eq otherClean indent, layoutOf, layoutOf,
    Layout.lineBreak_congr same.breaks, Layout.renderAll_eq,
    Layout.renderAll_eq, layoutLines_eq, layoutLines_eq, waiting, closing,
    Layout.render_sheet_congr settled]

/-- An action on few lines, with a comment before it and one at the end of a
line. -/
def denseAction : String :=
  "# a\naction \"x\" \x7b uses=\"./y\" # b\n\x7d"

/-- The same action with every token on a line of its own. -/
def sparseAction : String :=
  "\n # a\n\naction\n\"x\"\n\x7b\nuses\n=\n  \"./y\"# b\n\n\n\x7d\n"

theorem format_ignores_space_sparseAction :
    (ofText denseAction).hasSyntaxErrors = false ∧
      (ofText sparseAction).hasSyntaxErrors = false ∧
        SameButSpace denseAction sparseAction ∧
          ∃ layout, (ofText denseAction).format? "\t" = some layout ∧
            (ofText sparseAction).format? "\t" = some layout := by
  have clean : (ofText denseAction).hasSyntaxErrors = false :=
    (hasSyntaxErrors_eq_false_iff denseAction).mpr
      ⟨by decide +kernel, by decide +kernel⟩
  have otherClean : (ofText sparseAction).hasSyntaxErrors = false :=
    (hasSyntaxErrors_eq_false_iff sparseAction).mpr
      ⟨by decide +kernel, by decide +kernel⟩
  have same : SameButSpace denseAction sparseAction := {
    tokens := by decide +kernel
    beside := by decide +kernel
    breaks := by decide +kernel }
  exact ⟨clean, otherClean, same,
    format_ignores_space clean otherClean same "\t"⟩

end Compilation

end WorkflowLang
