import WorkflowLang.Proofs.Layout.Printing

/-!
# A whole layout

When the plan of a tree holds the tokens of a faultless text, the lines printed
for it can be scanned, and they hold the tokens of the text in their order and
its comments, each once.
-/

namespace WorkflowLang
namespace Layout

/-- The plan of a tree holds the tokens of a faultless text. -/
structure Fits (tree : SyntaxTree) (text : CommentedText) : Prop where
  isFilled : ∀ line ∈ treeLines tree, line.IsFilled
  contents_eq : (treeLines tree).flatMap PlannedLine.contents =
    text.tokens.map CommentedToken.token
  isRecut : ∀ token ∈ text.tokens.map CommentedToken.token, token.IsRecut
  notComment : ∀ token ∈ text.tokens.map CommentedToken.token,
    token.kind ≠ .comment
  isRecut_comment : ∀ comment ∈ text.comments,
    (commentToken comment).IsRecut

/-- The lines of a whole layout as lines of tokens. -/
def tokenLines (tree : SyntaxTree) (text : CommentedText) :
    List TokenLine :=
  let settled := settle [] text.tokens (treeLines tree)
  let lines :=
    settled.1.flatMap SettledLine.lines ++
      settled.2.map (TokenLine.ofComment 0)
  let gap :=
    if text.closing.isEmpty || lines.isEmpty then [] else [TokenLine.blank]
  lines ++ gap ++ text.closing.map (TokenLine.ofComment 0)

theorem isFilled_settle {plan : List PlannedLine}
    (filled : ∀ line ∈ plan, line.IsFilled) (pending : List String)
    (commented : List CommentedToken) :
    ∀ line ∈ (settle pending commented plan).1, line.IsFilled := by
  induction plan generalizing pending commented with
  | nil => simp [settle]
  | cons line others inductionHypothesis =>
      have behind := inductionHypothesis fun other member =>
        filled other (List.mem_cons_of_mem _ member)
      have here := filled line List.mem_cons_self
      intro settled member
      cases line with
      | blank =>
          rcases List.mem_cons.mp member with rfl | isLater
          · trivial
          · exact behind _ _ settled isLater
      | tokens depth commentDepth width planned =>
          rcases List.mem_cons.mp member with rfl | isLater
          · exact here
          · exact behind _ _ settled isLater

namespace Fits

variable {tree : SyntaxTree} {text : CommentedText}

theorem covered (fits : Fits tree text) :
    text.tokens.length ≤
      ((treeLines tree).flatMap PlannedLine.contents).length := by
  rw [fits.contents_eq, List.length_map]

/-- The comments of the text settle, wait or close the text. -/
theorem comments_perm (fits : Fits tree text) :
    ((settle [] text.tokens (treeLines tree)).1.flatMap
        SettledLine.comments ++
      ((settle [] text.tokens (treeLines tree)).2 ++ text.closing)).Perm
        text.comments := by
  have settled := (settle_perm [] fits.covered).append_right text.closing
  simpa [CommentedText.comments] using settled

theorem mem_comments (fits : Fits tree text) {comment : String}
    (member : comment ∈ (settle [] text.tokens (treeLines tree)).1.flatMap
        SettledLine.comments ++
      ((settle [] text.tokens (treeLines tree)).2 ++ text.closing)) :
    (commentToken comment).IsRecut :=
  fits.isRecut_comment comment (fits.comments_perm.mem_iff.mp member)

theorem isSound (fits : Fits tree text) :
    ∀ line ∈ (settle [] text.tokens (treeLines tree)).1, line.IsSound := by
  intro line member
  have inside {token : Token} (present : token ∈ line.contents) :
      token ∈ text.tokens.map CommentedToken.token := by
    rw [← fits.contents_eq, ← contents_settle [] text.tokens]
    exact List.mem_flatMap.mpr ⟨line, member, present⟩
  refine ⟨?_, fun token present => ?_, fun token present => ?_,
    fun comment present => ?_⟩
  · exact isFilled_settle fits.isFilled _ _ line member
  · exact fits.isRecut token (inside present)
  · exact fits.notComment token (inside present)
  · refine fits.mem_comments (List.mem_append_left _ ?_)
    exact List.mem_flatMap.mpr ⟨line, member, present⟩

theorem isReadable (fits : Fits tree text) :
    ∀ line ∈ tokenLines tree text, line.IsReadable := by
  intro line member
  rcases List.mem_append.mp member with isFront | isClosing
  · rcases List.mem_append.mp isFront with isWoven | isGap
    · rcases List.mem_append.mp isWoven with isSettled | isWaiting
      · obtain ⟨settled, present, inside⟩ := List.mem_flatMap.mp isSettled
        exact (fits.isSound settled present).isReadable line inside
      · obtain ⟨comment, present, rfl⟩ := List.mem_map.mp isWaiting
        refine isReadable_ofComment (fits.mem_comments ?_) 0
        exact List.mem_append_right _ (List.mem_append_left _ present)
    · split at isGap
      · simp at isGap
      · obtain rfl := List.mem_singleton.mp isGap
        exact ⟨by simp [TokenLine.blank], by simp [TokenLine.blank],
          by simp [TokenLine.blank]⟩
  · obtain ⟨comment, present, rfl⟩ := List.mem_map.mp isClosing
    refine isReadable_ofComment (fits.mem_comments ?_) 0
    exact List.mem_append_right _ (List.mem_append_right _ present)

/-- The tokens of the layout are those of the text, and so are its comments. -/
theorem tokens_tokenLines (fits : Fits tree text) :
    Token.withoutComments
        ((tokenLines tree text).flatMap TokenLine.tokens) =
          text.tokens.map CommentedToken.token ∧
      (Token.commentTexts
        ((tokenLines tree text).flatMap TokenLine.tokens)).Perm
          text.comments := by
  obtain ⟨contents, comments⟩ := tokens_settledLines fits.isSound
  have gap (isClosed : Bool) : (if isClosed then []
      else [TokenLine.blank]).flatMap TokenLine.tokens = [] := by
    cases isClosed <;> rfl
  simp only [tokenLines, List.flatMap_append, gap,
    flatMap_tokens_ofComment, Token.withoutComments_append,
    Token.commentTexts_append, contents, comments, Token.withoutComments_nil,
    Token.commentTexts_nil, withoutComments_map_commentToken,
    commentTexts_map_commentToken, List.append_nil, List.append_assoc]
  exact ⟨(contents_settle _ _ _).trans fits.contents_eq,
    fits.comments_perm⟩

/-- The printed lines are the characters of the lines of tokens. -/
theorem render_printedLines (fits : Fits tree text) (indent : String) :
    (printedLines tree text).map
        (fun line => (line.render indent).toList) =
      (tokenLines tree text).map (TokenLine.render indent) := by
  have woven : ((settle [] text.tokens (treeLines tree)).1.flatMap
          SettledLine.printed ++
        (settle [] text.tokens (treeLines tree)).2.map
          (PrintedLine.ofComment 0)).map
            (fun line => (line.render indent).toList) =
      ((settle [] text.tokens (treeLines tree)).1.flatMap
          SettledLine.lines ++
        (settle [] text.tokens (treeLines tree)).2.map
          (TokenLine.ofComment 0)).map (TokenLine.render indent) := by
    rw [List.map_append, List.map_append, render_settledLines fits.isSound,
      render_comments fun comment member => fits.mem_comments
        (List.mem_append_right _ (List.mem_append_left _ member))]
  have closing := render_comments (fun comment member => fits.mem_comments
    (List.mem_append_right _ (List.mem_append_right _ member))) indent 0
  have isEmpty_eq := congrArg List.isEmpty woven
  rw [List.isEmpty_map, List.isEmpty_map] at isEmpty_eq
  simp only [printedLines, tokenLines, weave_eq_settle, isEmpty_eq]
  generalize (settle [] text.tokens (treeLines tree)).1.flatMap
    SettledLine.printed ++ _ = wovenPrinted at woven ⊢
  generalize (settle [] text.tokens (treeLines tree)).1.flatMap
    SettledLine.lines ++ _ = wovenLines at woven ⊢
  rw [List.map_append, List.map_append, List.map_append, List.map_append,
    woven, closing]
  congr 2
  split
  · rfl
  · simp [PrintedLine.blank, PrintedLine.render, TokenLine.blank,
      TokenLine.render]

end Fits

end Layout

end WorkflowLang
