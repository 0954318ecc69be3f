import WorkflowLang.Proofs.Tree.Accounting
import WorkflowLang.Proofs.Tree.Bodies
import WorkflowLang.Proofs.Tree.Extent

/-!
# How far a statement reaches

A stand-in is put where the last token was passed or in front of the next one.  So
the tokens of a statement stand at its keyword, at tokens behind it or at the
keyword of the next statement, whose end no statement before it exceeds
(`Parse.pairwise_reach`), and every statement begins with its keyword.
-/

namespace WorkflowLang

open TokenKind (statementKeywords)

namespace Cursor

/-- Between two cursors some tokens are passed.  The second cursor stands behind one
of them, and each token taken stands at one of them or at the next token, unless
nothing was passed. -/
def Trails (start cursor : Cursor) (taken : List Token) : Prop :=
  ∃ passed, start.rest = passed ++ cursor.rest ∧
    cursor.last ∈ start.last :: passed.map Token.span ∧
      ∀ token ∈ taken, token.span ∈
        start.last :: (passed ++ cursor.rest.head?.toList).map Token.span

theorem takeFrom_trails (resumable expected : List TokenKind) (last : Span)
    (isReported : Bool) (reports : List Diagnostic) (tokens : List Token) :
    Trails ⟨tokens, last, isReported, reports⟩
      (takeFrom resumable expected last isReported reports tokens).2
      [(takeFrom resumable expected last isReported reports tokens).1] := by
  induction tokens generalizing last isReported reports with
  | nil => exact ⟨[], by simp [takeFrom, Token.missing]⟩
  | cons token rest inductionHypothesis =>
      rw [takeFrom]
      split
      · exact ⟨[token], by simp⟩
      · split
        · exact ⟨[], by simp [Token.missing]⟩
        · obtain ⟨passed, restEq, lastMem, placed⟩ :=
            inductionHypothesis token.span rest.isEmpty
              (report isReported ⟨.unexpectedToken token.kind, token.span⟩
                reports)
          refine ⟨token :: passed, congrArg (token :: ·) restEq,
            List.mem_cons_of_mem _ lastMem, fun other member => ?_⟩
          exact List.mem_cons_of_mem _ (placed other member)

theorem takeComma_trails (cursor : Cursor) :
    Trails cursor cursor.takeComma.2 cursor.takeComma.1.toList := by
  obtain ⟨tokens, last, isReported, reports⟩ := cursor
  cases tokens with
  | nil => exact ⟨[], by simp [takeComma]⟩
  | cons token rest =>
      unfold takeComma
      dsimp only
      split
      · exact ⟨[token], by simp⟩
      · exact ⟨[], by simp⟩

theorem Trails.trans {start cursor finish : Cursor} {taken found : List Token}
    (trails : start.Trails cursor taken) (goes : cursor.Trails finish found) :
    start.Trails finish (taken ++ found) := by
  obtain ⟨passed, startRest, lastMem, placed⟩ := trails
  obtain ⟨behind, cursorRest, finishMem, foundPlaced⟩ := goes
  have next : cursor.rest.head?.toList ⊆
      behind ++ finish.rest.head?.toList := by
    rw [cursorRest]
    cases behind with
    | nil => exact List.Subset.refl _
    | cons token others => simp
  have fromLast {places : List Span} :
      cursor.last :: places ⊆ (start.last :: passed.map Token.span) ++ places :=
    List.cons_subset.mpr ⟨List.mem_append_left _ lastMem,
      List.subset_append_right _ _⟩
  refine ⟨passed ++ behind, ?_, ?_, List.forall_mem_append.mpr ⟨?_, ?_⟩⟩
  · rw [startRest, cursorRest, List.append_assoc]
  · rw [List.map_append]
    exact fromLast finishMem
  · intro token member
    have inFront := List.append_subset.mpr ⟨List.subset_append_left passed _,
      List.Subset.trans next (List.subset_append_right _ _)⟩
    rw [List.append_assoc]
    exact List.cons_subset_cons _ (List.map_subset Token.span inFront)
      (placed token member)
  · intro token member
    rw [List.append_assoc, List.map_append]
    exact fromLast (foundPlaced token member)

theorem collects_trails (kinds : List TokenKind) (start : Cursor) :
    Collects kinds start.Trails where
  take _ trails := trails.trans (takeFrom_trails _ _ _ _ _ _)
  takeComma trails := trails.trans (takeComma_trails _)
  drop := by
    rintro cursor taken token ⟨passed, startRest, lastMem, placed⟩
    exact ⟨passed, startRest, lastMem,
      (List.forall_mem_append.mp placed).1⟩

end Cursor

namespace SyntaxTree

open Token (keywordsOf)

/-- The tokens of a statement stand at its keyword, at tokens passed behind it or at
the token in front of which it ends. -/
theorem placed_parseAfterKeyword (next : Token) (rest : List Token) :
    ∃ passed, rest = passed ++
        (parseAfterKeyword next (behindKeyword next rest)).2.rest ∧
      ∀ token ∈ (parseAfterKeyword next
          (behindKeyword next rest)).1.toList.flatMap Statement.tokens,
        ∃ place ∈ next :: passed ++ (parseAfterKeyword next
            (behindKeyword next rest)).2.rest.head?.toList,
          place.span = token.span := by
  have begins : (behindKeyword next rest).Trails (behindKeyword next rest)
      ([] ++ [next]) := ⟨[], by simp [behindKeyword]⟩
  obtain ⟨passed, restEq, -, placed⟩ := parseAfterKeyword_collects
    (Cursor.collects_trails statementKeywords (behindKeyword next rest)) begins
  refine ⟨passed, restEq, fun token member => ?_⟩
  have stands := placed token member
  rwa [show (behindKeyword next rest).last = next.span from rfl,
    ← List.map_cons, ← List.cons_append, List.mem_map] at stands

end SyntaxTree

namespace Token

/-- Some tokens have a width and follow each other. -/
structure Follow (tokens : List Token) : Prop where
  wide : ∀ token ∈ tokens, token.IsWide
  pairwise : tokens.Pairwise IsBefore

theorem Follow.sublist {tokens others : List Token} (follow : Follow tokens)
    (inside : others.Sublist tokens) : Follow others where
  wide token member := follow.wide token (inside.subset member)
  pairwise := follow.pairwise.sublist inside

theorem Follow.start_le_of_head {first : Token} {others : List Token}
    (follow : Follow (first :: others)) :
    AllFrom first.span.start (first :: others) := by
  have wide := follow.wide first List.mem_cons_self
  have behind := (List.pairwise_cons.mp follow.pairwise).1
  refine List.forall_mem_cons.mpr ⟨Position.le_refl _, fun token member => ?_⟩
  exact Position.le_trans wide.start_le_finish (behind token member)

theorem Follow.finish_le_of_ahead {before after : List Token}
    (follow : Follow (before ++ after)) {first second : Token}
    (isFirst : first ∈ before ++ after.head?.toList)
    (isSecond : second ∈ after) : first.span.finish ≤ second.span.finish := by
  have wide := follow.wide second (List.mem_append_right _ isSecond)
  obtain ⟨-, inside, across⟩ := List.pairwise_append.mp follow.pairwise
  rcases List.mem_append.mp isFirst with inFront | isNext
  · exact Position.le_trans (across first inFront second isSecond)
      wide.start_le_finish
  · obtain ⟨others, rfl⟩ :=
      List.head?_eq_some_iff.mp (Option.mem_toList.mp isNext)
    rcases List.mem_cons.mp isSecond with rfl | isLater
    · exact Position.le_refl _
    · exact Position.le_trans
        ((List.pairwise_cons.mp inside).1 second isLater) wide.start_le_finish

theorem Follow.nodup_spans {tokens : List Token} (follow : Follow tokens) :
    (tokens.map Token.span).Nodup :=
  Token.nodup_spans (follow.pairwise.imp_of_mem fun isFirst _ before =>
    before.not_start_le (follow.wide _ isFirst))

end Token

theorem Scan.follow (position : Position) (text : List Char) :
    Token.Follow (scanFrom position text).tokens :=
  ⟨fun _ => isWide_of_mem, pairwise_isBefore position text⟩

namespace SyntaxTree

open Token (keywordsOf)

/-- A statement ends where the next one has its keyword, if not before. -/
def Reaches (first second : Statement) : Prop :=
  ∀ token ∈ first.tokens,
    token.span.finish ≤ second.keyword.span.finish

theorem follow_statementsOf {tokens : List Token}
    (follow : Token.Follow tokens) :
    (statementsOf tokens).Pairwise Reaches ∧
      ∀ statement ∈ statementsOf tokens,
        Token.AllFrom statement.keyword.span.start statement.tokens := by
  induction tokens using statements_induction with
  | skipAll nothing =>
      rw [statementsOf_skipAll nothing]
      exact ⟨.nil, by simp⟩
  | @statement skipped next rest skip begins inductionHypothesis =>
      obtain ⟨statement, read, rfl, -⟩ :=
        keyword_parseAfterKeyword begins (behindKeyword next rest)
      obtain ⟨passed, restEq, placed⟩ := placed_parseAfterKeyword
        statement.keyword rest
      rw [statementsOf_skip skipped skip begins, read]
      rw [read, Option.toList_some, List.flatMap_singleton] at placed
      generalize (parseAfterKeyword statement.keyword
        (behindKeyword statement.keyword rest)).2.rest = behind at *
      subst restEq
      have fromHere := follow.sublist (List.sublist_append_right skipped _)
      have isAhead := fromHere.sublist
        (List.sublist_append_right (statement.keyword :: passed) behind)
      obtain ⟨others, othersBegin⟩ := inductionHypothesis isAhead
      refine ⟨List.pairwise_cons.mpr ⟨fun other isOther token member => ?_,
        others⟩, List.forall_mem_cons.mpr ⟨fun token member => ?_,
          othersBegin⟩⟩
      · obtain ⟨place, isPlace, same⟩ := placed token member
        have isKeyword : other.keyword ∈ keywordsOf behind := by
          rw [← (keywords_statementsOf behind).1]
          exact List.mem_map_of_mem isOther
        rw [← same]
        exact fromHere.finish_le_of_ahead isPlace
          (List.mem_filter.mp isKeyword).1
      · obtain ⟨place, isPlace, same⟩ := placed token member
        rw [← same]
        refine fromHere.start_le_of_head place ?_
        rcases List.mem_append.mp isPlace with inFront | isNext
        · exact List.mem_append_left behind inFront
        · exact List.mem_append_right (statement.keyword :: passed)
            (List.mem_of_head? (Option.mem_toList.mp isNext))

theorem Reaches.finish_span_le {first second : Statement}
    (reaches : Reaches first second) :
    first.span.finish ≤ second.keyword.span.finish := by
  obtain ⟨token, inFirst, finish⟩ := first.exists_finish
  rw [finish]
  exact reaches token inFirst

end SyntaxTree

namespace Parse

/-- Tokens of a tree follow each other as far as they are there. -/
theorem follow_of_present {position : Position} {text : List Char}
    {found : List Token} (inTree : found.Sublist
      (ofTokens (Scan.scanFrom position text).tokens).tree.tokens)
    (present : ∀ token ∈ found, token.isMissing = false) :
    Token.Follow found :=
  (Scan.follow position text).sublist (sublist_of_present inTree present)

theorem follow_statements (position : Position) (text : List Char) :
    let tree := (ofTokens (Scan.scanFrom position text).tokens).tree
    tree.statements.Pairwise SyntaxTree.Reaches ∧
      ∀ statement ∈ tree.statements,
        Token.AllFrom statement.keyword.span.start statement.tokens := by
  intro tree
  exact SyntaxTree.follow_statementsOf
    ((Scan.follow position text).sublist List.filter_sublist)

/-- A block ends where the next one has its keyword, if not before. -/
theorem pairwise_reach (position : Position) (text : List Char) :
    (ofTokens (Scan.scanFrom position text).tokens).tree.blocks.Pairwise
      fun first second =>
        first.span.finish ≤ second.keyword.span.finish := by
  rw [SyntaxTree.blocks, List.pairwise_filterMap]
  refine (follow_statements position text).1.imp ?_
  intro first second reaches block isBlock other isOther
  cases first with
  | version version => simp [Statement.block?] at isBlock
  | block body =>
      cases second with
      | version version => simp [Statement.block?] at isOther
      | block otherBody =>
          obtain rfl : body = block := by
            simpa [Statement.block?] using isBlock
          obtain rfl : otherBody = other := by
            simpa [Statement.block?] using isOther
          exact reaches.finish_span_le

end Parse

end WorkflowLang
