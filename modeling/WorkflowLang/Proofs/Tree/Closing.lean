import WorkflowLang.Proofs.Token.Spelling
import WorkflowLang.Proofs.Tree.Reach

/-!
# Where a closed block ends

A block is read behind its keyword, whatever comes before it.  Its closing bracket
is the last token that it takes, and the stand-ins taken earlier stand no later than
that bracket.  So a block with a closing bracket ends with it, one column behind
where the bracket starts (`Parse.finish_span_of_closed`).
-/

namespace WorkflowLang

open TokenKind (statementKeywords)

namespace SyntaxTree

open Token (keywordsOf)

/-- Each block is what is read behind its keyword. -/
theorem exists_parseBlock_behindKeyword (tokens : List Token) {block : Block}
    (member : .block block ∈ statementsOf tokens) :
    ∃ kind before rest, tokens = before ++ block.keyword :: rest ∧
      block =
        (parseBlock kind block.keyword
          (behindKeyword block.keyword rest)).1 := by
  induction tokens using statements_induction with
  | skipAll nothing =>
      rw [statementsOf_skipAll nothing] at member
      contradiction
  | @statement skipped next rest skip begins inductionHypothesis =>
      obtain ⟨statement, read, keyword, -⟩ :=
        keyword_parseAfterKeyword begins (behindKeyword next rest)
      rw [statementsOf_skip skipped skip begins, read, Option.toList_some,
        List.singleton_append, List.mem_cons] at member
      rcases member with rfl | isLater
      · obtain rfl : block.keyword = next := keyword
        obtain ⟨kind, isRead⟩ := exists_parseBlock_of_parseAfterKeyword read
        exact ⟨kind, skipped, rest, rfl, isRead⟩
      · obtain ⟨kind, before, behind, ahead, isRead⟩ :=
          inductionHypothesis isLater
        obtain ⟨passed, restEq, -⟩ :=
          avoids_parseAfterKeyword next (behindKeyword next rest)
        rw [ahead] at restEq
        refine ⟨kind, skipped ++ next :: (passed ++ before), behind, ?_, isRead⟩
        rw [show rest = passed ++ (before ++ block.keyword :: behind) from
          restEq]
        simp

/-- No token of a block ends behind its closing bracket. -/
theorem finish_le_closeBracket (kind : BlockKind) {keyword : Token}
    {rest : List Token} (follow : Token.Follow (keyword :: rest))
    (closed : (parseBlock kind keyword
      (behindKeyword keyword rest)).1.closeBracket.isMissing = false) :
    ∀ token ∈ (parseBlock kind keyword (behindKeyword keyword rest)).1.tokens,
      token.span.finish ≤ (parseBlock kind keyword
        (behindKeyword keyword rest)).1.closeBracket.span.finish := by
  have begins : (behindKeyword keyword rest).Trails
      (behindKeyword keyword rest) ([] ++ [keyword]) :=
    ⟨[], by simp [behindKeyword]⟩
  obtain ⟨passed, restEq, -, placed⟩ := parseBody_collects
    (Cursor.collects_trails statementKeywords (behindKeyword keyword rest))
    begins
  have isAhead := (Cursor.takeFrom_of_isMissing_eq_false closed).1
  have restIs : keyword :: rest = (keyword :: passed) ++ _ :=
    congrArg (keyword :: ·) restEq
  rw [restIs] at follow
  refine List.forall_mem_append.mpr ⟨fun token member => ?_, ?_⟩
  · have stands := placed token member
    rw [show (behindKeyword keyword rest).last = keyword.span from rfl,
      ← List.map_cons, ← List.cons_append, List.mem_map] at stands
    obtain ⟨place, isPlace, same⟩ := stands
    rw [← same]
    exact follow.finish_le_of_ahead isPlace isAhead
  · rw [List.forall_mem_singleton]
    exact Position.le_refl _

end SyntaxTree

namespace Parse

theorem mem_of_mem_block {tokens : List Token} {block : Block}
    (isBlock : block ∈ (ofTokens tokens).tree.blocks) {token : Token}
    (inBlock : token ∈ block.tokens) (present : token.isMissing = false) :
    token ∈ tokens :=
  mem_of_present (List.mem_flatMap.mpr
    ⟨_, SyntaxTree.mem_of_mem_blocks isBlock, inBlock⟩) present

theorem kind_closeBracket {tokens : List Token} {block : Block}
    (isBlock : block ∈ (ofTokens tokens).tree.blocks)
    (closed : block.closeBracket.isMissing = false) :
    block.closeBracket.kind = .rightBrace := by
  obtain ⟨kind, keyword, cursor, rfl⟩ := exists_parseBlock isBlock
  rcases Cursor.kind_take _ statementKeywords [.rightBrace] with
    isBrace | isMissing
  · exact List.mem_singleton.mp isBrace
  · exact absurd isMissing (Bool.eq_false_iff.mp closed)

section

variable {position : Position} {text : List Char} {block : Block}

variable (isBlock : block ∈
  (ofTokens (Scan.scanFrom position text).tokens).tree.blocks)
include isBlock

/-- A block with a closing bracket ends with it. -/
theorem finish_span_of_closed
    (closed : block.closeBracket.isMissing = false) :
    block.span.finish = block.closeBracket.span.finish := by
  obtain ⟨kind, before, rest, ahead, isRead⟩ :=
    SyntaxTree.exists_parseBlock_behindKeyword
      (grammatical (Scan.scanFrom position text).tokens)
      (SyntaxTree.mem_of_mem_blocks isBlock)
  have follow : Token.Follow
      (grammatical (Scan.scanFrom position text).tokens) :=
    (Scan.follow position text).sublist List.filter_sublist
  rw [ahead] at follow
  have last := SyntaxTree.finish_le_closeBracket kind
    (follow.sublist (List.sublist_append_right before _)) (isRead ▸ closed)
  rw [← isRead] at last
  obtain ⟨token, inBlock, finish⟩ := block.exists_finish
  apply Position.le_antisymm
  · rw [finish]
    exact last token inBlock
  · exact block.le_finish_span

/-- A closing bracket is one column wide. -/
theorem finish_closeBracket (closed : block.closeBracket.isMissing = false) :
    block.closeBracket.span.finish =
      block.closeBracket.span.start.right 1 := by
  have isToken := mem_of_mem_block isBlock (by simp [Block.tokens]) closed
  have isBrace := kind_closeBracket isBlock closed
  rw [Scan.finish_of_mem isToken,
    Scan.text_eq_description isToken (by rw [isBrace]; rfl), isBrace]
  rfl

end

end Parse

end WorkflowLang
