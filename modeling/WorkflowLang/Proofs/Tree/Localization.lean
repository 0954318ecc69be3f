import WorkflowLang.Proofs.Tree.Recovery

/-!
# Errors stay in their statement

On the top level everything before a statement keyword is skipped, and behind
the keyword one statement is read, which passes no other keyword.  What follows
a keyword never changes what was read before it, so parsing a list is parsing
its pieces between statement keywords (`Parse.statements_localized`).
-/

namespace WorkflowLang

open TokenKind (statementKeywords)

namespace Statement

/-- The keyword a statement begins with. -/
def keyword : Statement → Token
  | .version statement => statement.keyword
  | .block body => body.keyword

/-- The keyword of a statement is of its own kind. -/
def HasOwnKeyword : Statement → Prop
  | .version statement => statement.keyword.kind = .version
  | .block body => body.keyword.kind = body.kind.keyword

end Statement

namespace SyntaxTree

open Token (keywordsOf)

def statementsOf (tokens : List Token) : List Statement :=
  (parseStatements (Cursor.start tokens)).1

/-- The place right behind a statement keyword. -/
def behindKeyword (keyword : Token) (rest : List Token) : Cursor :=
  ⟨rest, keyword.span, false, []⟩

theorem parseStatements_of_isAtEnd {cursor : Cursor}
    (atEnd : cursor.rest = []) : (parseStatements cursor).1 = [] := by
  rw [parseStatements]
  simp [Cursor.isAtEnd, atEnd]

theorem parseStatements_skipAll {cursor : Cursor}
    (nothing : keywordsOf cursor.rest = []) :
    (parseStatements cursor).1 = [] := by
  by_cases atEnd : cursor.rest = []
  · exact parseStatements_of_isAtEnd atEnd
  · have ahead : cursor.isAtEnd = false := by simpa [Cursor.isAtEnd] using atEnd
    obtain ⟨missing, noRest⟩ := Cursor.takeFrom_skipAll nothing cursor.last
      cursor.isReported cursor.reports
    have none : parseAfterKeyword (cursor.take [] statementKeywords).1
        (cursor.take [] statementKeywords).2 =
          (none, (cursor.take [] statementKeywords).2) := by
      unfold parseAfterKeyword Cursor.take
      rw [missing]
    have others := parseStatements_of_isAtEnd
      (show (cursor.take [] statementKeywords).2.rest = [] from noRest)
    rw [parseStatements]
    simpa [ahead, none] using others

theorem exists_parseStatements_eq {skipped : List Token} {next : Token}
    (nothing : keywordsOf skipped = [])
    (keyword : next.beginsStatement = true) {rest : List Token}
    {cursor : Cursor} (tokens : cursor.rest = skipped ++ next :: rest) :
    ∃ finish : Cursor,
      finish.rest =
          (parseAfterKeyword next (behindKeyword next rest)).2.rest ∧
        (parseStatements cursor).1 =
          (parseAfterKeyword next (behindKeyword next rest)).1.toList ++
            (parseStatements finish).1 := by
  obtain ⟨taken, takenRest, takenLast⟩ := Cursor.takeFrom_skip nothing
    keyword cursor.last cursor.isReported cursor.reports rest
  rw [← tokens] at taken takenRest takenLast
  have ahead : cursor.isAtEnd = false := by simp [Cursor.isAtEnd, tokens]
  have alike : id (cursor.take [] statementKeywords).1 = id next := taken
  have place : (cursor.take [] statementKeywords).2.rest =
        (behindKeyword next rest).rest ∧
      (cursor.take [] statementKeywords).2.last =
        (behindKeyword next rest).last := ⟨takenRest, takenLast⟩
  obtain ⟨statement, finish⟩ :=
    Cursor.simulation_of_place.parseAfterKeyword alike place
  simp only [Statement.mapTokens_id, Option.map_id, id_eq] at statement
  refine ⟨_, finish.1, ?_⟩
  rw [parseStatements, dif_pos ahead, ← statement]

theorem length_rest_behindKeyword_lt (skipped : List Token) (next : Token)
    (rest : List Token) :
    (parseAfterKeyword next (behindKeyword next rest)).2.rest.length <
      (skipped ++ next :: rest).length := by
  have bound := length_rest_parseAfterKeyword_le next (behindKeyword next rest)
  simp only [behindKeyword, List.length_append, List.length_cons] at bound ⊢
  omega

/-- What holds of tokens without a statement keyword, and of a statement with
others behind it once it holds of those, holds of all tokens. -/
@[elab_as_elim]
theorem statements_induction {motive : List Token → Prop}
    (skipAll : ∀ {tokens : List Token}, keywordsOf tokens = [] → motive tokens)
    (statement : ∀ {skipped : List Token} {next : Token} (rest : List Token),
      keywordsOf skipped = [] → next.beginsStatement = true →
        motive (parseAfterKeyword next (behindKeyword next rest)).2.rest →
          motive (skipped ++ next :: rest))
    (tokens : List Token) : motive tokens := by
  induction length_eq : tokens.length using Nat.strongRecOn
    generalizing tokens with
  | ind size inductionHypothesis =>
      by_cases nothing : keywordsOf tokens = []
      · exact skipAll nothing
      · obtain ⟨skipped, next, rest, rfl, skip, keyword⟩ :=
          Token.exists_skip_of_keywordsOf_ne_nil nothing
        have shorter : (parseAfterKeyword next
            (behindKeyword next rest)).2.rest.length < size := by
          rw [← length_eq]
          exact length_rest_behindKeyword_lt skipped next rest
        exact statement rest skip keyword (inductionHypothesis _ shorter _ rfl)

/-- The statements that follow depend on the tokens ahead only. -/
theorem parseStatements_congr {first second : Cursor}
    (same : first.rest = second.rest) :
    (parseStatements first).1 = (parseStatements second).1 := by
  generalize firstRest : first.rest = tokens at same
  induction tokens using statements_induction generalizing first second with
  | skipAll nothing =>
      rw [parseStatements_skipAll (firstRest ▸ nothing),
        parseStatements_skipAll (same ▸ nothing)]
  | statement rest skip keyword inductionHypothesis =>
      obtain ⟨firstFinish, firstLeft, firstEq⟩ :=
        exists_parseStatements_eq skip keyword firstRest
      obtain ⟨secondFinish, secondLeft, secondEq⟩ :=
        exists_parseStatements_eq skip keyword same.symm
      rw [firstEq, secondEq, inductionHypothesis firstLeft secondLeft.symm]

theorem statementsOf_skipAll {tokens : List Token}
    (nothing : keywordsOf tokens = []) : statementsOf tokens = [] :=
  parseStatements_skipAll nothing

/-- The first statement keyword begins the first statement. -/
theorem statementsOf_skip (skipped : List Token) {next : Token}
    (nothing : keywordsOf skipped = [])
    (keyword : next.beginsStatement = true) (rest : List Token) :
    statementsOf (skipped ++ next :: rest) =
      (parseAfterKeyword next (behindKeyword next rest)).1.toList ++
        statementsOf
          (parseAfterKeyword next (behindKeyword next rest)).2.rest := by
  obtain ⟨finish, finishRest, statements⟩ := exists_parseStatements_eq nothing
    keyword (show (Cursor.start (skipped ++ next :: rest)).rest =
      skipped ++ next :: rest from rfl)
  have others : (parseStatements finish).1 = statementsOf finish.rest :=
    parseStatements_congr rfl
  rw [← finishRest, ← others]
  exact statements

/-- A statement keyword ends whatever was begun before it. -/
theorem statementsOf_append (before : List Token) {next : Token}
    (keyword : next.beginsStatement = true) (after : List Token) :
    ∃ front, statementsOf (before ++ next :: after) =
        front ++ statementsOf (next :: after) ∧
      front.map (Statement.mapTokens Token.unplacedIfMissing) =
        (statementsOf before).map
          (Statement.mapTokens Token.unplacedIfMissing) := by
  induction before using statements_induction with
  | skipAll nothing =>
      refine ⟨[], ?_, by rw [statementsOf_skipAll nothing]⟩
      have alone := statementsOf_skip [] rfl keyword after
      rw [List.nil_append] at alone ⊢
      rw [statementsOf_skip _ nothing keyword, alone]
  | @statement skipped first rest skip begins inductionHypothesis =>
      obtain ⟨front, others, alike⟩ := inductionHypothesis
      have ahead : (behindKeyword first (rest ++ next :: after)).rest =
          (behindKeyword first rest).rest ++ next :: after := rfl
      obtain ⟨statement, finish⟩ := (Cursor.simulation_of_append keyword
        after).parseAfterKeyword (Eq.refl first.unplacedIfMissing) ahead
      refine ⟨(parseAfterKeyword first
        (behindKeyword first (rest ++ next :: after))).1.toList ++ front,
          ?_, ?_⟩
      · rw [List.append_assoc, List.cons_append,
          statementsOf_skip skipped skip begins, finish, others,
          List.append_assoc]
      · rw [statementsOf_skip skipped skip begins, List.map_append,
          List.map_append, alike, ← Option.toList_map,
          ← Option.toList_map, statement]

theorem keyword_parseAfterKeyword {next : Token}
    (keyword : next.beginsStatement = true) (cursor : Cursor) :
    ∃ statement, (parseAfterKeyword next cursor).1 = some statement ∧
      statement.keyword = next ∧ statement.HasOwnKeyword := by
  have member : next.kind ∈ statementKeywords := by
    simpa [Token.beginsStatement] using keyword
  unfold parseAfterKeyword
  split
  · rename_i isVersion
    exact ⟨_, rfl, rfl, isVersion⟩
  · rename_i isWorkflow
    exact ⟨_, rfl, rfl, isWorkflow⟩
  · rename_i isAction
    exact ⟨_, rfl, rfl, isAction⟩
  · rename_i notVersion notWorkflow notAction
    simp only [statementKeywords, List.mem_cons, List.not_mem_nil,
      or_false] at member
    rcases member with isVersion | isWorkflow | isAction
    · exact (notVersion isVersion).elim
    · exact (notWorkflow isWorkflow).elim
    · exact (notAction isAction).elim

/-- Steps inside a statement pass no statement keyword. -/
theorem keywordsOf_parseAfterKeyword (next : Token) (rest : List Token) :
    keywordsOf (parseAfterKeyword next (behindKeyword next rest)).2.rest =
      keywordsOf rest := by
  refine Simulation.invariant_parseAfterKeyword
    (fun cursor => keywordsOf cursor.rest = keywordsOf rest)
    (fun {cursor _ _} inner kept => ?_) (fun {cursor} kept => ?_) next rfl
  · rw [← kept]
    exact Cursor.keywordsOf_takeFrom inner _ _ _ _
  · rw [← kept]
    exact cursor.keywordsOf_takeComma

/-- Every statement keyword begins a statement, and nothing else does. -/
theorem keywords_statementsOf (tokens : List Token) :
    (statementsOf tokens).map Statement.keyword = keywordsOf tokens ∧
      ∀ statement ∈ statementsOf tokens, statement.HasOwnKeyword := by
  induction tokens using statements_induction with
  | skipAll nothing =>
      rw [statementsOf_skipAll nothing, nothing]
      exact ⟨rfl, by simp⟩
  | @statement skipped next rest skip begins inductionHypothesis =>
      obtain ⟨statement, read, keyword, fits⟩ :=
        keyword_parseAfterKeyword begins (behindKeyword next rest)
      obtain ⟨keywords, others⟩ := inductionHypothesis
      rw [keywordsOf_parseAfterKeyword] at keywords
      have split : keywordsOf (skipped ++ next :: rest) =
          next :: keywordsOf rest := by
        have skipNil : skipped.filter Token.beginsStatement = [] := skip
        rw [keywordsOf, List.filter_append, skipNil,
          List.filter_cons_of_pos begins]
        rfl
      rw [statementsOf_skip skipped skip begins, read, split]
      refine ⟨by simp [keyword, keywords], ?_⟩
      simpa [fits] using others

/-- Parts picked by their keyword have the keywords picked. -/
theorem keywords_filterMap {Part : Type} {pick : Statement → Option Part}
    {keywordOf : Part → Token} {wanted : Token → Bool}
    (picks : ∀ statement : Statement, statement.HasOwnKeyword →
      (pick statement).map keywordOf =
        if wanted statement.keyword then some statement.keyword else none)
    {statements : List Statement}
    (fits : ∀ statement ∈ statements, statement.HasOwnKeyword) :
    (statements.filterMap pick).map keywordOf =
      (statements.map Statement.keyword).filter wanted := by
  induction statements with
  | nil => rfl
  | cons statement others inductionHypothesis =>
      have here := picks statement (fits statement List.mem_cons_self)
      have behind := inductionHypothesis fun other member =>
        fits other (List.mem_cons_of_mem _ member)
      rw [List.map_cons, List.filter_cons]
      split at here
      · rename_i isWanted
        obtain ⟨part, picked, keyword⟩ := Option.map_eq_some_iff.mp here
        rw [List.filterMap_cons_some picked, List.map_cons, keyword,
          if_pos isWanted, behind]
      · rename_i notWanted
        rw [List.filterMap_cons_none (Option.map_eq_none_iff.mp here),
          if_neg notWanted, behind]

theorem keyword_versions {statements : List Statement}
    (fits : ∀ statement ∈ statements, statement.HasOwnKeyword) :
    (versions ⟨statements⟩).map VersionStatement.keyword =
      (statements.map Statement.keyword).filter
        fun token => token.kind == .version := by
  refine keywords_filterMap ?_ fits
  intro statement own
  cases statement with
  | version version =>
      have isVersion : version.keyword.kind = .version := own
      simp [Statement.version?, Statement.keyword, isVersion]
  | block block =>
      have isBlock : block.keyword.kind = block.kind.keyword := own
      simp only [Statement.version?, Statement.keyword, isBlock]
      cases block.kind <;> rfl

def beginsBlock (token : Token) : Bool :=
  token.kind == .workflow || token.kind == .action

theorem keyword_blocks {statements : List Statement}
    (fits : ∀ statement ∈ statements, statement.HasOwnKeyword) :
    (blocks ⟨statements⟩).map Block.keyword =
      (statements.map Statement.keyword).filter beginsBlock := by
  refine keywords_filterMap ?_ fits
  intro statement own
  cases statement with
  | version version =>
      have isVersion : version.keyword.kind = .version := own
      simp [Statement.block?, Statement.keyword, beginsBlock, isVersion]
  | block block =>
      have isBlock : block.keyword.kind = block.kind.keyword := own
      simp only [Statement.block?, Statement.keyword, beginsBlock, isBlock]
      cases block.kind <;> rfl

end SyntaxTree

namespace Parse

open Token (keywordsOf)

theorem statements_ofTokens (tokens : List Token) :
    (ofTokens tokens).tree.statements =
      SyntaxTree.statementsOf (grammatical tokens) := rfl

/-- Among the grammatical tokens are all keywords of a kind of statement. -/
theorem filter_keywordsOf_grammatical (tokens : List Token)
    (wanted : Token → Bool)
    (isKeyword : ∀ token, wanted token = true →
      token.beginsStatement = true) :
    (keywordsOf (grammatical tokens)).filter wanted =
      tokens.filter wanted := by
  have notTrivia (token : Token) (keyword : token.beginsStatement = true) :
      (!token.kind.isTrivia) = true := by
    revert keyword
    unfold Token.beginsStatement
    cases token.kind <;> decide
  simp only [keywordsOf, grammatical, List.filter_filter]
  apply List.filter_congr
  intro token _
  cases isWanted : wanted token with
  | false => simp
  | true =>
      have keyword := isKeyword token isWanted
      simp [keyword, notTrivia token keyword]

theorem grammatical_append_keyword (before after : List Token) {next : Token}
    (isKeyword : next.kind ∈ statementKeywords) :
    grammatical (before ++ next :: after) =
      grammatical before ++ next :: grammatical after := by
  have kept : (!next.kind.isTrivia) = true := by
    revert isKeyword
    cases next.kind <;> decide
  simp [grammatical, kept]

/-- The tree of some tokens in front of a statement keyword is the front of the
whole tree, up to the places of stand-ins. -/
theorem tree_append (before after : List Token) (next : Token)
    (isKeyword : next.kind ∈ statementKeywords) :
    ∃ front : SyntaxTree,
      front.mapTokens Token.unplacedIfMissing =
          (ofTokens before).tree.mapTokens Token.unplacedIfMissing ∧
        (ofTokens (before ++ next :: after)).tree.versions =
          front.versions ++ (ofTokens (next :: after)).tree.versions ∧
        (ofTokens (before ++ next :: after)).tree.blocks =
          front.blocks ++ (ofTokens (next :: after)).tree.blocks := by
  have keyword : next.beginsStatement = true := by
    simpa [Token.beginsStatement] using isKeyword
  have tokens := grammatical_append_keyword before after isKeyword
  have back : grammatical (next :: after) = next :: grammatical after :=
    grammatical_append_keyword [] after isKeyword
  obtain ⟨front, statements, alike⟩ := SyntaxTree.statementsOf_append
    (grammatical before) keyword (grammatical after)
  refine ⟨⟨front⟩, ?_, ?_, ?_⟩
  · rw [SyntaxTree.mapTokens, alike]
    rfl
  · simp only [SyntaxTree.versions, statements_ofTokens]
    rw [tokens, back, statements, List.filterMap_append]
  · simp only [SyntaxTree.blocks, statements_ofTokens]
    rw [tokens, back, statements, List.filterMap_append]

theorem keyword_versions (tokens : List Token) :
    (ofTokens tokens).tree.versions.map VersionStatement.keyword =
      tokens.filter fun token => token.kind == .version := by
  obtain ⟨keywords, fits⟩ :=
    SyntaxTree.keywords_statementsOf (grammatical tokens)
  rw [← filter_keywordsOf_grammatical tokens, ← keywords]
  · exact SyntaxTree.keyword_versions fits
  · intro token isVersion
    simp only [beq_iff_eq] at isVersion
    simp [Token.beginsStatement, isVersion, statementKeywords]

theorem keyword_blocks (tokens : List Token) :
    (ofTokens tokens).tree.blocks.map Block.keyword =
      tokens.filter SyntaxTree.beginsBlock := by
  obtain ⟨keywords, fits⟩ :=
    SyntaxTree.keywords_statementsOf (grammatical tokens)
  rw [← filter_keywordsOf_grammatical tokens, ← keywords]
  · exact SyntaxTree.keyword_blocks fits
  · intro token begins
    simp only [SyntaxTree.beginsBlock, Bool.or_eq_true, beq_iff_eq] at begins
    rcases begins with isWorkflow | isAction
    · simp [Token.beginsStatement, isWorkflow, statementKeywords]
    · simp [Token.beginsStatement, isAction, statementKeywords]

theorem kind_keyword_of_mem_blocks {tokens : List Token} {block : Block}
    (member : block ∈ (ofTokens tokens).tree.blocks) :
    block.keyword.kind = block.kind.keyword := by
  obtain ⟨statement, present, isBlock⟩ := List.mem_filterMap.mp member
  have own := (SyntaxTree.keywords_statementsOf (grammatical tokens)).2
    statement present
  cases statement with
  | version version => simp [Statement.block?] at isBlock
  | block body =>
      obtain rfl : body = block := by simpa [Statement.block?] using isBlock
      exact own

/-- Errors stay in the statement they occur in.  With a statement keyword behind
some tokens, the tree of those tokens stays what it is, up to the places of
stand-ins, and the statements from the keyword on are those of its own tree.
Every statement keyword begins one statement, and there are no others. -/
theorem statements_localized :
    (∀ (before after : List Token) (next : Token),
      next.kind ∈ statementKeywords →
        ∃ front : SyntaxTree,
          front.mapTokens Token.unplacedIfMissing =
              (ofTokens before).tree.mapTokens Token.unplacedIfMissing ∧
            (ofTokens (before ++ next :: after)).tree.versions =
              front.versions ++ (ofTokens (next :: after)).tree.versions ∧
            (ofTokens (before ++ next :: after)).tree.blocks =
              front.blocks ++ (ofTokens (next :: after)).tree.blocks) ∧
    ∀ tokens : List Token,
      (ofTokens tokens).tree.versions.map VersionStatement.keyword =
          tokens.filter (fun token => token.kind == .version) ∧
        (ofTokens tokens).tree.blocks.map Block.keyword =
          tokens.filter SyntaxTree.beginsBlock ∧
        ∀ block ∈ (ofTokens tokens).tree.blocks,
          block.keyword.kind = block.kind.keyword :=
  ⟨tree_append, fun tokens => ⟨keyword_versions tokens, keyword_blocks tokens,
    fun _ member => kind_keyword_of_mem_blocks member⟩⟩

/-- An action that breaks off within an array. -/
def brokenTokens : List Token :=
  [.comma, .action, .string, .leftBrace, .needs, .equal, .leftBracket,
    .string].map fun kind => ⟨kind, Span.origin, kind.description⟩

theorem statements_localized_behind_brokenTokens :
    TokenKind.version ∈ statementKeywords ∧
      ∃ front : SyntaxTree,
        front.mapTokens Token.unplacedIfMissing =
            (ofTokens brokenTokens).tree.mapTokens
              Token.unplacedIfMissing ∧
          (ofTokens (brokenTokens ++
              [⟨.version, Span.origin, "version"⟩])).tree.versions =
            front.versions ++
              (ofTokens
                [⟨.version, Span.origin, "version"⟩]).tree.versions ∧
          (ofTokens (brokenTokens ++
              [⟨.version, Span.origin, "version"⟩])).tree.blocks =
            front.blocks ++
              (ofTokens [⟨.version, Span.origin, "version"⟩]).tree.blocks :=
  ⟨by decide, statements_localized.1 brokenTokens []
    ⟨.version, Span.origin, "version"⟩ (by decide)⟩

end Parse

end WorkflowLang
