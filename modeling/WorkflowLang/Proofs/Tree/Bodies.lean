import WorkflowLang.Proofs.Tree.Localization
import WorkflowLang.Proofs.Tree.Standing

/-!
# The keys in a body

Inside a property every step leaves all keywords where they stand, and between
properties the parser asks for a property keyword.  So from the open bracket of a
block to the place where the block ends, each property keyword becomes the key of a
property, whatever stands between them (`Parse.keys_of_body`).
-/

namespace WorkflowLang

open TokenKind (statementKeywords propertyKeywords)

namespace Token

/-- A keyword that begins a property. -/
def beginsProperty (token : Token) : Bool :=
  propertyKeywords.contains token.kind

theorem not_beginsProperty_of_beginsStatement {token : Token}
    (keyword : token.beginsStatement = true) :
    token.beginsProperty = false := by
  revert keyword
  unfold beginsStatement beginsProperty
  cases token.kind <;> decide

theorem isMissing_of_propertyKeyword {token : Token}
    (isKey : token.kind ∈ propertyKeywords) : token.isMissing = false := by
  rw [isMissing, beq_eq_false_iff_ne]
  intro isMissing
  rw [isMissing] at isKey
  exact absurd isKey (by decide)

end Token

namespace Cursor

/-- What a step can do: it passes over tokens that it neither asks for nor can be
resumed on, and then takes one that it asks for or gives up. -/
theorem take_cases (cursor : Cursor) (resumable expected : List TokenKind) :
    ∃ skipped, (∀ token ∈ skipped,
        token.kind ∉ expected ∧ token.kind ∉ resumable) ∧
      ((cursor.rest = skipped ++ (cursor.take resumable expected).1 ::
            (cursor.take resumable expected).2.rest ∧
          (cursor.take resumable expected).1.kind ∈ expected) ∨
        (cursor.rest = skipped ++ (cursor.take resumable expected).2.rest ∧
          (cursor.take resumable expected).1.isMissing = true ∧
          ∀ next ∈ (cursor.take resumable expected).2.rest.head?,
            next.kind ∈ resumable)) := by
  obtain ⟨tokens, last, isReported, found⟩ := cursor
  unfold Cursor.take
  dsimp only
  induction tokens generalizing last isReported found with
  | nil => exact ⟨[], by simp, Or.inr ⟨rfl, rfl, by simp [takeFrom]⟩⟩
  | cons token rest inductionHypothesis =>
      simp only [takeFrom, List.contains_iff_mem]
      split
      · rename_i wanted
        exact ⟨[], by simp, Or.inl ⟨rfl, wanted⟩⟩
      · rename_i unwanted
        split
        · rename_i resumed
          exact ⟨[], by simp, Or.inr ⟨rfl, rfl, by simpa using resumed⟩⟩
        · rename_i notResumed
          obtain ⟨skipped, others, split⟩ := inductionHypothesis _ _ _
          refine ⟨token :: skipped,
            List.forall_mem_cons.mpr ⟨⟨unwanted, notResumed⟩, others⟩, ?_⟩
          exact split.imp (And.imp_left (congrArg (token :: ·)))
            (And.imp_left (congrArg (token :: ·)))

/-- From one cursor to another some tokens are passed, none of them of some
kinds. -/
def Avoids (kinds : List TokenKind) (start finish : Cursor) : Prop :=
  ∃ passed, start.rest = passed ++ finish.rest ∧
    ∀ token ∈ passed, token.kind ∉ kinds

theorem Avoids.refl (kinds : List TokenKind) (cursor : Cursor) :
    Avoids kinds cursor cursor :=
  ⟨[], rfl, by simp⟩

theorem Avoids.trans {kinds : List TokenKind} {start middle finish : Cursor}
    (first : Avoids kinds start middle) (second : Avoids kinds middle finish) :
    Avoids kinds start finish := by
  obtain ⟨passed, startRest, avoided⟩ := first
  obtain ⟨others, middleRest, othersAvoided⟩ := second
  refine ⟨passed ++ others, ?_, List.forall_mem_append.mpr
    ⟨avoided, othersAvoided⟩⟩
  rw [startRest, middleRest, List.append_assoc]

theorem avoids_take {kinds resumable expected : List TokenKind}
    (leaves : Leaves kinds resumable expected) (cursor : Cursor) :
    Avoids kinds cursor (cursor.take resumable expected).2 := by
  obtain ⟨skipped, others, ⟨rest, wanted⟩ | ⟨rest, -, -⟩⟩ :=
    cursor.take_cases resumable expected
  · refine ⟨skipped ++ [(cursor.take resumable expected).1], by simpa using rest,
      List.forall_mem_append.mpr ⟨?_, ?_⟩⟩
    · exact fun token member isLeft =>
        (others token member).2 (leaves _ isLeft).1
    · exact List.forall_mem_singleton.mpr fun isLeft =>
        (leaves _ isLeft).2 wanted
  · exact ⟨skipped, rest, fun token member isLeft =>
      (others token member).2 (leaves _ isLeft).1⟩

theorem avoids_takeComma {kinds : List TokenKind} (other : .comma ∉ kinds)
    (cursor : Cursor) : Avoids kinds cursor cursor.takeComma.2 := by
  unfold takeComma
  split
  · exact .refl kinds cursor
  · rename_i token rest tokens
    split
    · rename_i isComma
      exact ⟨[token], tokens, List.forall_mem_singleton.mpr (isComma ▸ other)⟩
    · exact .refl kinds cursor

theorem collects_avoids (kinds : List TokenKind) (other : .comma ∉ kinds)
    (start : Cursor) :
    Collects kinds fun cursor _ => Avoids kinds start cursor where
  take leaves avoids := avoids.trans (avoids_take leaves _)
  takeComma avoids := avoids.trans (avoids_takeComma other _)
  drop avoids := avoids

open Token (keywordsOf)

/-- From one cursor to another no statement keyword is passed, and the property
keywords among the tokens passed are some keys. -/
def PassesKeys (start : Cursor) (keys : List Token) (finish : Cursor) : Prop :=
  ∃ passed, start.rest = passed ++ finish.rest ∧ keywordsOf passed = [] ∧
    passed.filter Token.beginsProperty = keys

theorem PassesKeys.trans {start middle finish : Cursor}
    {keys others : List Token} (first : start.PassesKeys keys middle)
    (second : middle.PassesKeys others finish) :
    start.PassesKeys (keys ++ others) finish := by
  obtain ⟨passed, startRest, noStatement, rfl⟩ := first
  obtain ⟨behind, middleRest, noneBehind, rfl⟩ := second
  refine ⟨passed ++ behind, ?_, ?_, List.filter_append ..⟩
  · rw [startRest, middleRest, List.append_assoc]
  · rw [keywordsOf, List.filter_append, ← keywordsOf, ← keywordsOf,
      noStatement, noneBehind, List.append_nil]

theorem PassesKeys.of_passed {start finish : Cursor} {passed : List Token}
    (rest : start.rest = passed ++ finish.rest)
    (others : ∀ token ∈ passed, token.kind ∉ TokenKind.keywords) :
    start.PassesKeys [] finish := by
  refine ⟨passed, rest, ?_, ?_⟩
  · refine List.filter_eq_nil_iff.mpr fun token member keyword => ?_
    exact others token member
      (List.mem_append_left _ (List.contains_iff_mem.mp keyword))
  · refine List.filter_eq_nil_iff.mpr fun token member keyword => ?_
    exact others token member
      (List.mem_append_right _ (List.contains_iff_mem.mp keyword))

theorem Avoids.passesKeys {start finish : Cursor}
    (avoids : Avoids TokenKind.keywords start finish) :
    start.PassesKeys [] finish := by
  obtain ⟨passed, rest, others⟩ := avoids
  exact .of_passed rest others

open SyntaxTree (bodyResumable)

/-- Between properties the next property keyword is taken, unless the body ends
before it. -/
theorem passesKeys_take (cursor : Cursor) :
    ((cursor.take bodyResumable propertyKeywords).1.isMissing = false ∧
        cursor.PassesKeys [(cursor.take bodyResumable propertyKeywords).1]
          (cursor.take bodyResumable propertyKeywords).2) ∨
      ((cursor.take bodyResumable propertyKeywords).1.isMissing = true ∧
        cursor.PassesKeys []
          (cursor.take bodyResumable propertyKeywords).2 ∧
        ∀ next ∈ (cursor.take bodyResumable propertyKeywords).2.rest.head?,
          next.kind ∈ bodyResumable) := by
  obtain ⟨skipped, unwanted, split⟩ :=
    cursor.take_cases bodyResumable propertyKeywords
  have others : ∀ token ∈ skipped, token.kind ∉ TokenKind.keywords := by
    intro token member isKeyword
    rcases List.mem_append.mp isKeyword with isStatement | isProperty
    · exact (unwanted token member).2 (List.mem_append_left _ isStatement)
    · exact (unwanted token member).1 isProperty
  rcases split with ⟨rest, isKey⟩ | ⟨rest, isMissing, ends⟩
  · have begins : (cursor.take bodyResumable
        propertyKeywords).1.beginsProperty = true :=
      List.contains_iff_mem.mpr isKey
    have atKey : cursor.PassesKeys [] ⟨_ :: _, cursor.last, false, []⟩ :=
      .of_passed rest others
    refine Or.inl ⟨Token.isMissing_of_propertyKeyword isKey,
      atKey.trans ⟨[_], rfl, ?_, ?_⟩⟩
    · cases keyword : (cursor.take bodyResumable
          propertyKeywords).1.beginsStatement with
      | true =>
          rw [Token.not_beginsProperty_of_beginsStatement keyword] at begins
          contradiction
      | false => simp [keywordsOf, keyword]
    · simp [begins]
  · exact Or.inr ⟨isMissing, .of_passed rest others, ends⟩

end Cursor

namespace SyntaxTree

open Token (keywordsOf)

/-- A property passes no keyword. -/
theorem avoids_parseProperty (key : Token) (cursor : Cursor) :
    cursor.Avoids TokenKind.keywords (parseProperty key cursor).2 := by
  have collects := Cursor.collects_avoids TokenKind.keywords (by decide) cursor
  exact @parseProperty_collects _ [] cursor collects key
    (Cursor.Avoids.refl _ cursor)

theorem passesKeys_of_repeats {cursor finish : Cursor}
    {properties : List Property}
    (run : cursor.Repeats .rightBrace bodyResumable propertyKeywords
      parseProperty properties finish) :
    cursor.PassesKeys (properties.map Property.key) finish ∧
      ∀ next ∈ finish.rest.head?, next.kind ∈ bodyResumable := by
  induction run with
  | @stop cursor before =>
      refine ⟨(Cursor.Avoids.refl _ cursor).passesKeys, fun next isNext => ?_⟩
      simp only [Cursor.isBefore, Cursor.isAtEnd, Cursor.isNext,
        Bool.or_eq_true] at before
      rcases before with atEnd | isBrace
      · simp [List.isEmpty_iff.mp atEnd] at isNext
      · rw [Option.mem_def.mp isNext] at isBrace
        simp only [Option.any_some, beq_iff_eq] at isBrace
        rw [isBrace]
        decide
  | @giveUp cursor _ absent =>
      rcases cursor.passesKeys_take with ⟨present, -⟩ | ⟨-, passes, ends⟩
      · rw [absent] at present
        contradiction
      · exact ⟨passes, ends⟩
  | @piece cursor finish others _ present _ inductionHypothesis =>
      rcases cursor.passesKeys_take with ⟨-, atKey⟩ | ⟨absent, -⟩
      · obtain ⟨behind, ends⟩ := inductionHypothesis
        have property := (avoids_parseProperty
          (cursor.take bodyResumable propertyKeywords).1
          (cursor.take bodyResumable propertyKeywords).2).passesKeys
        exact ⟨(atKey.trans property).trans behind, ends⟩
      · rw [present] at absent
        contradiction

end SyntaxTree

open Token (keywordsOf)

/-- The tokens behind the keyword of a block: a header up to the open bracket, the
body, and what follows.  The open bracket is the first one behind the first string.
The body ends in front of the closing bracket or, when that one is missing, of the
next statement keyword or the end. -/
structure Block.Sections (block : Block)
    (tokens header body after : List Token) : Prop where
  tokens_eq : tokens = header ++ block.openBracket :: (body ++ after)
  header_eq : ∃ toName toBracket, header = toName ++ block.name :: toBracket ∧
    (∀ token ∈ toName, token.kind ≠ .string) ∧
      ∀ token ∈ toBracket, token.kind ≠ .leftBrace
  header_keywords : keywordsOf header = []
  body_keywords : keywordsOf body = []
  /-- Every property keyword in the body is the key of a property. -/
  keys_eq : body.filter Token.beginsProperty = block.properties.map Property.key
  ends : (block.closeBracket.isMissing = false ∧
      ∃ rest, after = block.closeBracket :: rest) ∨
    (block.closeBracket.isMissing = true ∧
      ∀ next ∈ after.head?, next.beginsStatement = true)

namespace SyntaxTree

/-- A body is followed by its closing bracket, or this one is missing. -/
theorem take_closeBracket {cursor : Cursor}
    (atEnd : ∀ next ∈ cursor.rest.head?, next.kind ∈ bodyResumable) :
    ((cursor.take statementKeywords [.rightBrace]).1.isMissing = false ∧
        ∃ rest, cursor.rest =
          (cursor.take statementKeywords [.rightBrace]).1 :: rest) ∨
      ((cursor.take statementKeywords [.rightBrace]).1.isMissing = true ∧
        ∀ next ∈ cursor.rest.head?, next.beginsStatement = true) := by
  obtain ⟨skipped, unwanted, split⟩ :=
    cursor.take_cases statementKeywords [.rightBrace]
  have nothing : skipped = [] := by
    cases skipped with
    | nil => rfl
    | cons token others =>
        obtain ⟨notBrace, notKeyword⟩ := unwanted token List.mem_cons_self
        have isNext : token ∈ cursor.rest.head? := by
          rcases split with ⟨rest, -⟩ | ⟨rest, -⟩ <;> simp [rest]
        rcases List.mem_append.mp (atEnd token isNext) with isKeyword | isBrace
        · exact absurd isKeyword notKeyword
        · exact absurd isBrace notBrace
  subst nothing
  rcases split with ⟨rest, isBrace⟩ | ⟨rest, isMissing, ends⟩
  · refine Or.inl ⟨?_, _, rest⟩
    rw [Token.isMissing, List.mem_singleton.mp isBrace]
    rfl
  · rw [List.nil_append] at rest
    rw [rest]
    exact Or.inr ⟨isMissing, fun next isNext =>
      List.contains_iff_mem.mpr (ends next isNext)⟩

/-- A block without a name has no open bracket either. -/
theorem take_openBracket {cursor : Cursor}
    (opened : ((cursor.take statementKeywords [.string]).2.take
      statementKeywords [.leftBrace]).1.isMissing = false) :
    ∃ toName toBracket, cursor.rest =
        toName ++ (cursor.take statementKeywords [.string]).1 ::
          (toBracket ++ ((cursor.take statementKeywords [.string]).2.take
              statementKeywords [.leftBrace]).1 ::
            ((cursor.take statementKeywords [.string]).2.take
              statementKeywords [.leftBrace]).2.rest) ∧
      (∀ token ∈ toName, token.kind ≠ .string) ∧
      (∀ token ∈ toBracket, token.kind ≠ .leftBrace) ∧
      keywordsOf (toName ++
        (cursor.take statementKeywords [.string]).1 :: toBracket) = [] := by
  obtain ⟨toName, beforeName, nameSplit⟩ :=
    cursor.take_cases statementKeywords [.string]
  obtain ⟨toBracket, beforeBracket, bracketSplit⟩ :=
    (cursor.take statementKeywords [.string]).2.take_cases
      statementKeywords [.leftBrace]
  rcases bracketSplit with ⟨bracketRest, isBracket⟩ | ⟨-, absent, -⟩
  · rcases nameSplit with ⟨nameRest, isString⟩ | ⟨-, -, ends⟩
    · refine ⟨toName, toBracket, by rw [nameRest, bracketRest], ?_, ?_, ?_⟩
      · exact fun token member isString =>
          (beforeName token member).1 (List.mem_singleton.mpr isString)
      · exact fun token member isBrace =>
          (beforeBracket token member).1 (List.mem_singleton.mpr isBrace)
      · refine List.filter_eq_nil_iff.mpr fun token member keyword => ?_
        have isKeyword := List.contains_iff_mem.mp keyword
        rcases List.mem_append.mp member with inFront | isLater
        · exact (beforeName token inFront).2 isKeyword
        · rcases List.mem_cons.mp isLater with rfl | behind
          · rw [List.mem_singleton.mp isString] at isKeyword
            exact absurd isKeyword (by decide)
          · exact (beforeBracket token behind).2 isKeyword
    -- Without a name the next token is a statement keyword, which is left.
    · cases toBracket with
      | nil =>
          have isKeyword := ends _ (by rw [bracketRest]; rfl)
          rw [List.mem_singleton.mp isBracket] at isKeyword
          exact absurd isKeyword (by decide)
      | cons token others =>
          have isKeyword := ends token (by rw [bracketRest]; rfl)
          exact absurd isKeyword (beforeBracket token List.mem_cons_self).2
  · rw [opened] at absent
    contradiction

theorem sections_parseBlock (kind : BlockKind) (keyword : Token)
    {cursor : Cursor}
    (opened : (parseBlock kind keyword cursor).1.openBracket.isMissing =
      false) :
    ∃ header body after, (parseBlock kind keyword cursor).1.Sections
      cursor.rest header body after := by
  obtain ⟨toName, toBracket, rest, beforeName, beforeBracket, noKeyword⟩ :=
    take_openBracket opened
  obtain ⟨⟨body, bodyRest, noStatement, keys⟩, atEnd⟩ :=
    passesKeys_of_repeats (parseProperties_repeats
      (((cursor.take statementKeywords [.string]).2.take statementKeywords
        [.leftBrace]).2))
  refine ⟨_, body, _, ?_, ⟨toName, toBracket, rfl, beforeName, beforeBracket⟩,
    noKeyword, noStatement, keys, take_closeBracket atEnd⟩
  rw [rest, bodyRest, List.append_assoc]
  rfl

theorem avoids_parseAfterKeyword (keyword : Token) (cursor : Cursor) :
    cursor.Avoids statementKeywords (parseAfterKeyword keyword cursor).2 := by
  have collects := Cursor.collects_avoids statementKeywords (by decide) cursor
  exact @parseAfterKeyword_collects _ [] cursor collects keyword
    (Cursor.Avoids.refl _ cursor)

theorem sections_of_statementsOf {tokens : List Token}
    {earlier later : List Statement} {block : Block}
    (split : statementsOf tokens = earlier ++ .block block :: later)
    (opened : block.openBracket.isMissing = false) :
    ∃ before behind header body after,
      tokens = before ++ block.keyword :: behind ∧
        keywordsOf before = earlier.map Statement.keyword ∧
          block.Sections behind header body after := by
  induction tokens using statements_induction generalizing earlier with
  | skipAll nothing =>
      rw [statementsOf_skipAll nothing] at split
      simp at split
  | @statement skipped next rest skip begins inductionHypothesis =>
      obtain ⟨statement, read, keyword, -⟩ :=
        keyword_parseAfterKeyword begins (behindKeyword next rest)
      rw [statementsOf_skip skipped skip begins, read] at split
      cases earlier with
      | nil =>
          obtain rfl := (List.cons.inj split).1
          obtain rfl : block.keyword = next := keyword
          obtain ⟨kind, isRead⟩ := exists_parseBlock_of_parseAfterKeyword read
          obtain ⟨header, body, after, sections⟩ := sections_parseBlock kind
            block.keyword (isRead ▸ opened)
          rw [← isRead] at sections
          exact ⟨skipped, rest, header, body, after, rfl, skip, sections⟩
      | cons first earlier =>
          obtain ⟨rfl, others⟩ := List.cons.inj split
          obtain ⟨before, behind, header, body, after, tokens, keywords,
            sections⟩ := inductionHypothesis others
          obtain ⟨passed, restEq, avoided⟩ :=
            avoids_parseAfterKeyword next (behindKeyword next rest)
          have noKeyword : keywordsOf passed = [] :=
            List.filter_eq_nil_iff.mpr fun token member isKeyword =>
              avoided token member (List.contains_iff_mem.mp isKeyword)
          refine ⟨skipped ++ next :: (passed ++ before), behind, header, body,
            after, ?_, ?_, sections⟩
          · have restIs : rest = passed ++ (before ++ block.keyword ::
                behind) := by
              rw [← tokens]
              exact restEq
            simp [restIs]
          · have skipNil : skipped.filter Token.beginsStatement = [] := skip
            have passedNil : passed.filter Token.beginsStatement = [] :=
              noKeyword
            have beforeEq : before.filter Token.beginsStatement =
              earlier.map Statement.keyword := keywords
            simp [keywordsOf, skipNil, passedNil, beforeEq, begins, keyword]

end SyntaxTree

namespace Parse

/-- What is no trivia stays where it is among the grammatical tokens. -/
theorem filter_grammatical {wanted : Token → Bool}
    (notTrivia : ∀ token, wanted token = true →
      token.kind.isTrivia = false) (tokens : List Token) :
    (grammatical tokens).filter wanted = tokens.filter wanted := by
  rw [grammatical, List.filter_filter]
  refine List.filter_congr fun token _ => ?_
  cases isWanted : wanted token with
  | false => simp
  | true => simp [notTrivia token isWanted]

theorem keywordsOf_grammatical (tokens : List Token) :
    keywordsOf (grammatical tokens) = keywordsOf tokens := by
  refine filter_grammatical (fun token keyword => ?_) tokens
  revert keyword
  unfold Token.beginsStatement
  cases token.kind <;> decide

theorem filter_beginsProperty_grammatical (tokens : List Token) :
    (grammatical tokens).filter Token.beginsProperty =
      tokens.filter Token.beginsProperty := by
  refine filter_grammatical (fun token keyword => ?_) tokens
  revert keyword
  unfold Token.beginsProperty
  cases token.kind <;> decide

/-- Around a grammatical token the tokens split as the grammatical ones do. -/
theorem exists_of_grammatical_eq_append_cons {tokens front back : List Token}
    {token : Token} (split : grammatical tokens = front ++ token :: back) :
    ∃ before after, tokens = before ++ token :: after ∧
      grammatical before = front ∧ grammatical after = back := by
  obtain ⟨before, others, rfl, isFront, isBack⟩ :=
    List.filter_eq_append_iff.mp split
  obtain ⟨skipped, after, rfl, trivia, -, afterEq⟩ :=
    List.filter_eq_cons_iff.mp isBack
  refine ⟨before ++ skipped, after, by simp, ?_, afterEq⟩
  have nothing : grammatical skipped = [] := List.filter_eq_nil_iff.mpr trivia
  have frontEq : grammatical before = front := isFront
  rw [grammatical, List.filter_append, ← grammatical, ← grammatical, nothing,
    List.append_nil, frontEq]

/-- Trivia in front of what follows belong to what is before it. -/
theorem exists_of_grammatical_eq_append {tokens front back : List Token}
    (split : grammatical tokens = front ++ back) :
    ∃ before after, tokens = before ++ after ∧ grammatical before = front ∧
      after.head? = back.head? := by
  cases back with
  | nil => exact ⟨tokens, [], by simp, by simpa using split, rfl⟩
  | cons token back =>
      obtain ⟨before, after, tokensEq, frontEq, -⟩ :=
        exists_of_grammatical_eq_append_cons split
      exact ⟨before, token :: after, tokensEq, frontEq, rfl⟩

theorem kind_ne_of_grammatical {tokens : List Token} {kind : TokenKind}
    (notTrivia : kind.isTrivia = false)
    (others : ∀ token ∈ grammatical tokens, token.kind ≠ kind) :
    ∀ token ∈ tokens, token.kind ≠ kind := by
  rintro token member rfl
  exact others token (List.mem_filter.mpr ⟨member, by simp [notTrivia]⟩) rfl

/-- Trivia do not change the sections of a block. -/
theorem exists_sections_of_grammatical {block : Block}
    {tokens header body after : List Token}
    (sections : block.Sections (grammatical tokens) header body after) :
    ∃ header body after, block.Sections tokens header body after := by
  obtain ⟨tokensEq, ⟨toName, toBracket, rfl, beforeName, beforeBracket⟩,
    headerKeywords, bodyKeywords, keys, ends⟩ := sections
  obtain ⟨header, inside, rfl, headerEq, insideEq⟩ :=
    exists_of_grammatical_eq_append_cons tokensEq
  obtain ⟨inFront, behind, rfl, rfl, rfl⟩ :=
    exists_of_grammatical_eq_append_cons headerEq
  obtain ⟨body, rest, rfl, rfl, sameHead⟩ :=
    exists_of_grammatical_eq_append insideEq
  rw [← headerEq, keywordsOf_grammatical] at headerKeywords
  rw [keywordsOf_grammatical] at bodyKeywords
  rw [filter_beginsProperty_grammatical] at keys
  refine ⟨_, body, rest, rfl, ⟨inFront, behind, rfl,
    kind_ne_of_grammatical rfl beforeName,
    kind_ne_of_grammatical rfl beforeBracket⟩, headerKeywords, bodyKeywords,
    keys, ?_⟩
  rcases ends with ⟨present, others, rfl⟩ | ⟨absent, atKeyword⟩
  · exact Or.inl ⟨present, List.head?_eq_some_iff.mp sameHead⟩
  · exact Or.inr ⟨absent, by rwa [sameHead]⟩

/-- No property is swallowed by a broken neighbour.  A block stands behind as many
statement keywords as statements come before it.  If it has an open bracket, the
keys of its properties are, in order, the property keywords of its body, which
reaches from that bracket to the closing one or, when the latter is missing, to
the next statement keyword or the end. -/
theorem keys_of_body (tokens : List Token) {earlier later : List Statement}
    {block : Block}
    (split : (ofTokens tokens).tree.statements =
      earlier ++ .block block :: later)
    (opened : block.openBracket.isMissing = false) :
    ∃ before behind header body after,
      tokens = before ++ block.keyword :: behind ∧
        keywordsOf before = earlier.map Statement.keyword ∧
          block.Sections behind header body after := by
  rw [statements_ofTokens] at split
  obtain ⟨front, back, header, body, after, tokensEq, keywords, sections⟩ :=
    SyntaxTree.sections_of_statementsOf split opened
  obtain ⟨before, behind, rfl, rfl, rfl⟩ :=
    exists_of_grammatical_eq_append_cons tokensEq
  obtain ⟨header, body, after, sections⟩ :=
    exists_sections_of_grammatical sections
  rw [keywordsOf_grammatical] at keywords
  exact ⟨before, behind, header, body, after, rfl, keywords, sections⟩

/-- An action whose only closing brace is taken by an object that breaks off. -/
def brokenBody : List Token :=
  [.action, .string, .leftBrace, .needs, .equal, .leftBracket, .string, .env,
    .equal, .leftBrace, .comment, .identifier, .rightBrace, .runs, .uses,
    .workflow].map fun kind => ⟨kind, Span.origin, kind.description⟩

def brokenBlock : Block := (ofTokens brokenBody).tree.blocks.headD default

theorem keys_of_body_brokenBody :
    (∃ later, (ofTokens brokenBody).tree.statements =
        [] ++ .block brokenBlock :: later) ∧
      brokenBlock.openBracket.isMissing = false ∧
        ∃ before behind header body after,
          brokenBody = before ++ brokenBlock.keyword :: behind ∧
            keywordsOf before = [] ∧
              brokenBlock.Sections behind header body after := by
  have split : (ofTokens brokenBody).tree.statements = [] ++
      .block brokenBlock :: (ofTokens brokenBody).tree.statements.tail := by
    decide +kernel
  have opened : brokenBlock.openBracket.isMissing = false := by decide +kernel
  exact ⟨⟨_, split⟩, opened, keys_of_body brokenBody split opened⟩

end Parse
end WorkflowLang
