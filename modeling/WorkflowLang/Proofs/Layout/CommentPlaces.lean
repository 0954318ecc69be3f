import Mathlib.Data.List.Chain
import WorkflowLang.Proofs.Layout.Idempotence
import WorkflowLang.Proofs.Layout.Pieces

/-!
# Comments that stay where they are

A comment between two tokens of one piece has to move, since the piece is written on
one line.  When there is none, every comment stands before a piece or ends one, and
there it stays: the layout is scanned to the tokens of the text, comments included,
in their order (`Compilation.format_keeps_tokens`).
-/

namespace WorkflowLang

open Layout (CommentedText CommentedToken PlannedLine SettledLine TokenLine
  commentToken)

/-! ## Comments between tokens -/

/-- A comment stands between two of some tokens. -/
def CommentBetween (tokens : List Token) (first second : Token) : Prop :=
  ∃ comment, comment.kind = .comment ∧
    [first, comment, second].Sublist tokens

instance (tokens : List Token) (first second : Token) :
    Decidable (CommentBetween tokens first second) :=
  decidable_of_iff
    (∃ comment ∈ tokens, comment.kind = .comment ∧
      [first, comment, second].Sublist tokens)
    ⟨fun ⟨comment, _, isBetween⟩ => ⟨comment, isBetween⟩,
      fun ⟨comment, isComment, inTokens⟩ =>
        ⟨comment, inTokens.subset (by simp), isComment, inTokens⟩⟩

theorem CommentBetween.mono {tokens others : List Token} {first second : Token}
    (between : CommentBetween tokens first second)
    (sublist : tokens.Sublist others) : CommentBetween others first second := by
  obtain ⟨comment, isComment, inTokens⟩ := between
  exact ⟨comment, isComment, inTokens.trans sublist⟩

namespace Layout

/-- A token with its comments as tokens. -/
def CommentedToken.all (commented : CommentedToken) : List Token :=
  commented.leading.map commentToken ++
    (commented.token :: commented.trailing.toList.map commentToken)

/-- All tokens and comments of a text in their order. -/
def CommentedText.all (text : CommentedText) : List Token :=
  text.tokens.flatMap CommentedToken.all ++ text.closing.map commentToken

/-- Nothing stands between two commented tokens. -/
def CommentedToken.Adjoins (first second : CommentedToken) : Prop :=
  first.trailing = none ∧ second.leading = []

namespace CommentedText

theorem all_cons (token : CommentedToken) (text : CommentedText) :
    (cons token text).all = token.all ++ text.all := by
  simp [all, cons]

theorem commentToken_text {comment : Token} (isComment : comment.kind = .comment) :
    commentToken comment.text = comment.unplaced := by
  rw [commentToken, Token.unplaced, isComment]

/-- Attaching comments keeps the order of tokens and comments. -/
theorem all_attach (pending : List String) (tokens : List Token) :
    (attach pending tokens).all.map Token.unplaced =
      pending.map commentToken ++ tokens.map Token.unplaced := by
  have waiting (comments : List String) :
      (comments.map commentToken).map Token.unplaced =
        comments.map commentToken := by
    simp [commentToken, Token.unplaced]
  have found {comment : Token} (isComment : comment.kind = .comment) :
      (commentToken comment.text).unplaced = comment.unplaced := by
    rw [commentToken_text isComment]
    rfl
  fun_induction attach pending tokens with
  | case1 => simp [all, waiting]
  | case2 pending token isComment =>
      simp [all, waiting, found isComment]
  | case3 pending token notComment =>
      simp [all, CommentedToken.all, waiting]
  | case4 pending token next rest isComment inductionHypothesis =>
      simp [inductionHypothesis, commentToken_text isComment]
  | case5 pending token next rest notComment trails inductionHypothesis =>
      simp [all_cons, CommentedToken.all, waiting, inductionHypothesis,
        found trails.1]
  | case6 pending token next rest notComment noTrail inductionHypothesis =>
      simp [all_cons, CommentedToken.all, waiting, inductionHypothesis]

/-- Before the first token of a text stand the comments that wait, or others. -/
theorem head_attach {pending : List String} {tokens : List Token}
    {first : CommentedToken}
    (isFirst : first ∈ (attach pending tokens).tokens.head?) :
    [first.token].Sublist tokens ∧
      (first.leading = pending ∨ ∃ comment, comment.kind = .comment ∧
        [comment, first.token].Sublist tokens) := by
  fun_induction attach pending tokens with
  | case1 => simp at isFirst
  | case2 => simp at isFirst
  | case3 pending token notComment =>
      obtain rfl := Option.some.inj isFirst
      exact ⟨List.Sublist.refl _, Or.inl rfl⟩
  | case4 pending token next rest isComment inductionHypothesis =>
      obtain ⟨inRest, -⟩ := inductionHypothesis isFirst
      exact ⟨inRest.cons _, Or.inr ⟨token, isComment, inRest.cons_cons _⟩⟩
  | case5 pending token next rest notComment trails inductionHypothesis =>
      obtain rfl := Option.some.inj isFirst
      exact ⟨List.Sublist.cons_cons _ (List.nil_sublist _), Or.inl rfl⟩
  | case6 pending token next rest notComment noTrail inductionHypothesis =>
      obtain rfl := Option.some.inj isFirst
      exact ⟨List.Sublist.cons_cons _ (List.nil_sublist _), Or.inl rfl⟩

/-- Neighbours adjoin each other if no comment stands between them. -/
theorem isChain_attach (pending : List String) (tokens : List Token) :
    (attach pending tokens).tokens.IsChain fun first second =>
      first.Adjoins second ∨
        CommentBetween tokens first.token second.token := by
  have widen {tokens others : List Token} (sublist : tokens.Sublist others)
      {first second : CommentedToken}
      (apart : first.Adjoins second ∨
        CommentBetween tokens first.token second.token) :
      first.Adjoins second ∨
        CommentBetween others first.token second.token :=
    apart.imp_right fun between => between.mono sublist
  fun_induction attach pending tokens with
  | case1 => exact List.isChain_nil
  | case2 => exact List.isChain_nil
  | case3 => exact List.isChain_singleton _
  | case4 pending token next rest isComment inductionHypothesis =>
      exact inductionHypothesis.imp fun _ _ =>
        widen (List.sublist_cons_self _ _)
  | case5 pending token next rest notComment trails inductionHypothesis =>
      refine List.isChain_cons.mpr ⟨fun second isSecond => Or.inr ?_, ?_⟩
      · exact ⟨next, trails.1,
          ((head_attach isSecond).1.cons_cons _).cons_cons _⟩
      · exact inductionHypothesis.imp fun _ _ => widen
          ((List.sublist_cons_self _ _).trans (List.sublist_cons_self _ _))
  | case6 pending token next rest notComment noTrail inductionHypothesis =>
      refine List.isChain_cons.mpr ⟨fun second isSecond => ?_, ?_⟩
      · obtain ⟨-, leading | ⟨comment, isComment, inRest⟩⟩ :=
          head_attach isSecond
        · exact Or.inl ⟨rfl, leading⟩
        · exact Or.inr ⟨comment, isComment, inRest.cons_cons _⟩
      · exact inductionHypothesis.imp fun _ _ =>
          widen (List.sublist_cons_self _ _)

end CommentedText

/-! ## Settling what adjoins -/

/-- When the tokens of a line adjoin each other, the line keeps their order. -/
theorem settledOf_of_isChain {here : List CommentedToken}
    (chain : here.IsChain CommentedToken.Adjoins) :
    (settledOf here).2 = [] ∧
      here.flatMap CommentedToken.all =
        (leadingOf here).map commentToken ++
          (here.map CommentedToken.token ++
            ((settledOf here).1.map commentToken).toList) := by
  induction here with
  | nil => exact ⟨rfl, rfl⟩
  | cons first others inductionHypothesis =>
      cases others with
      | nil =>
          simp [settledOf, settleComments, leadingOf, CommentedToken.all,
            Option.toList_map]
      | cons next others =>
          obtain ⟨⟨trailing, leading⟩, behind⟩ :=
            List.isChain_cons_cons.mp chain
          obtain ⟨waiting, all⟩ := inductionHypothesis behind
          have settled : settledOf (first :: next :: others) =
              settledOf (next :: others) := by
            simp [settledOf, settleComments, trailing, leading]
          rw [settled, List.flatMap_cons, all]
          refine ⟨waiting, ?_⟩
          simp [CommentedToken.all, leadingOf, trailing, leading]

/-- When the tokens of each line adjoin each other, the settled lines keep the order
of all tokens and comments, and no comment waits. -/
theorem settle_of_isChain {plan : List PlannedLine}
    {commented : List CommentedToken} {Between : Token → Token → Prop}
    (chain : commented.IsChain fun first second =>
      first.Adjoins second ∨ Between first.token second.token)
    (whole : ∀ line ∈ plan, ∀ first ∈ line.contents,
      ∀ second ∈ line.contents, ¬Between first second)
    (covers : commented.map CommentedToken.token =
      plan.flatMap PlannedLine.contents) :
    (settle [] commented plan).2 = [] ∧
      ((settle [] commented plan).1.flatMap SettledLine.lines).flatMap
        TokenLine.tokens = commented.flatMap CommentedToken.all := by
  induction plan generalizing commented with
  | nil =>
      obtain rfl : commented = [] := by simpa using covers
      exact ⟨rfl, rfl⟩
  | cons line others inductionHypothesis =>
      obtain ⟨here, later, rfl, isHere, isLater⟩ :=
        List.map_eq_append_iff.mp covers
      obtain ⟨waiting, tokens⟩ := inductionHypothesis chain.right_of_append
        (fun other member => whole other (List.mem_cons_of_mem _ member))
        isLater
      cases line with
      | blank =>
          obtain rfl : here = [] := by simpa using isHere
          exact ⟨waiting, tokens⟩
      | tokens depth commentDepth width planned =>
          have length_eq : here.length = planned.length := by
            rw [← List.length_map CommentedToken.token, isHere,
              PlannedLine.contents_tokens]
          have adjoins : here.IsChain CommentedToken.Adjoins := by
            refine chain.left_of_append.imp_of_mem_imp ?_
            intro first second isFirst isSecond apart
            refine apart.resolve_right (whole _ List.mem_cons_self _ ?_ _ ?_)
            · exact isHere ▸ List.mem_map_of_mem isFirst
            · exact isHere ▸ List.mem_map_of_mem isSecond
          obtain ⟨none, all⟩ := settledOf_of_isChain adjoins
          simp only [settle, ← length_eq, List.take_left, List.drop_left, none,
            List.flatMap_cons, SettledLine.lines, List.flatMap_append, tokens,
            flatMap_tokens_ofComment, all, isHere,
            PlannedLine.contents_tokens, List.nil_append, List.append_assoc]
          exact ⟨waiting, rfl⟩

theorem tokens_sheet (settled : List SettledLine)
    (waiting closing : List String) :
    (sheet settled waiting closing).flatMap TokenLine.tokens =
      (settled.flatMap SettledLine.lines).flatMap TokenLine.tokens ++
        (waiting ++ closing).map commentToken := by
  have gap (isClosed : Bool) : (if isClosed then []
      else [TokenLine.blank]).flatMap TokenLine.tokens = [] := by
    cases isClosed <;> rfl
  simp only [sheet, List.flatMap_append, gap, flatMap_tokens_ofComment,
    List.nil_append, List.append_assoc, List.map_append]

end Layout

namespace SyntaxTree

/-- No comment among some tokens stands between two tokens of one piece. -/
def HasWholePieces (tree : SyntaxTree) (tokens : List Token) : Prop :=
  ∀ piece ∈ tree.pieces, ∀ first ∈ piece.tokens, ∀ second ∈ piece.tokens,
    ¬CommentBetween tokens first second

instance (tree : SyntaxTree) (tokens : List Token) :
    Decidable (tree.HasWholePieces tokens) :=
  inferInstanceAs (Decidable (∀ piece ∈ tree.pieces, _))

end SyntaxTree

namespace Compilation

variable {text : String}

/-- The lines of a layout hold the tokens and comments of the text in their order, if
no comment stands between two tokens of one piece. -/
theorem tokens_layoutLines
    (clean : (ofText text).hasSyntaxErrors = false)
    (whole : (ofText text).tree.HasWholePieces (ofText text).tokens) :
    ((layoutLines text).flatMap TokenLine.tokens).map Token.unplaced =
      (ofText text).tokens.map Token.unplaced := by
  have wholeLines : ∀ line ∈ Layout.treeLines (ofText text).tree,
      ∀ first ∈ line.contents, ∀ second ∈ line.contents,
        ¬CommentBetween (ofText text).tokens first second := by
    rw [treeLines_eq clean]
    intro line member
    cases line with
    | blank => simp
    | tokens depth commentDepth width planned =>
        exact whole _ (PlannedLine.piece?_mem member)
  obtain ⟨waiting, tokens⟩ := Layout.settle_of_isChain
    (CommentedText.isChain_attach [] (ofText text).tokens) wholeLines
    (fits clean).contents_eq.symm
  have inOrder := CommentedText.all_attach [] (ofText text).tokens
  rw [layoutLines_eq, Layout.tokens_sheet, settledLines, closingComments,
    CommentedText.ofTokens, waiting, tokens]
  exact inOrder

/-- Formatting keeps all tokens and comments where they are in the order of the text,
if no comment stands between two tokens that are written on one line. -/
theorem format_keeps_tokens
    (clean : (ofText text).hasSyntaxErrors = false)
    (whole : (ofText text).tree.HasWholePieces (ofText text).tokens)
    {indent : String} (isIndent : IsIndent indent) :
    ∃ layout, (ofText text).format? indent = some layout ∧
      (ofText layout).tokens.map Token.unplaced =
        (ofText text).tokens.map Token.unplaced := by
  refine ⟨layoutOf text indent, format?_eq clean indent, ?_⟩
  rw [tokens_layoutOf clean isIndent, tokens_layoutLines clean whole]

/-- Each comment stands in front of a piece or behind it. -/
theorem format_keeps_tokens_commentedAction :
    (ofText commentedAction).hasSyntaxErrors = false ∧
      (ofText commentedAction).tree.HasWholePieces
        (ofText commentedAction).tokens ∧
      IsIndent "\t" ∧
      ∃ layout, (ofText commentedAction).format? "\t" = some layout ∧
        (ofText layout).tokens.map Token.unplaced =
          (ofText commentedAction).tokens.map Token.unplaced := by
  have clean : (ofText commentedAction).hasSyntaxErrors = false :=
    (hasSyntaxErrors_eq_false_iff commentedAction).mpr
      ⟨by decide +kernel, by decide +kernel⟩
  have whole : (ofText commentedAction).tree.HasWholePieces
      (ofText commentedAction).tokens := by
    decide +kernel
  have isIndent : IsIndent "\t" := by
    simp [IsIndent]
  exact ⟨clean, whole, isIndent, format_keeps_tokens clean whole isIndent⟩

end Compilation
end WorkflowLang
