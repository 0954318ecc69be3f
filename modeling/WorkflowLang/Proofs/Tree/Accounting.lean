import WorkflowLang.Proofs.Tree.Acceptance
import WorkflowLang.Proofs.Tree.Typing

/-!
# Every token is accounted for

A token of the input is kept in the tree or passed over, and at most one report
is about it: one that it was unexpected when it is passed over, or one that
another token is missing at its place when it is kept.  While the parser runs, a
report about the next token may be there before the token is kept
(`Cursor.Settles`).  Such a token is of a kind on which an enclosing construct
resumes, so it is never passed over afterwards.
-/

namespace WorkflowLang

open TokenKind (statementKeywords propertyKeywords)

namespace Token

/-- The tokens that do not stand for absent ones. -/
def presentTokens (tokens : List Token) : List Token :=
  tokens.filter fun token => !token.isMissing

@[simp] theorem presentTokens_nil : presentTokens [] = [] := rfl

@[simp] theorem presentTokens_append (first second : List Token) :
    presentTokens (first ++ second) =
      presentTokens first ++ presentTokens second :=
  List.filter_append ..

theorem presentTokens_missing (span : Span) :
    presentTokens [missing span] = [] := rfl

theorem presentTokens_of_kind {token : Token} {kinds : List TokenKind}
    (isAmong : token.kind ∈ kinds) (missing : .missing ∉ kinds) :
    presentTokens [token] = [token] := by
  have present : token.isMissing = false := by
    rw [isMissing, beq_eq_false_iff_ne]
    rintro isMissing
    exact missing (isMissing ▸ isAmong)
  simp [presentTokens, present]

end Token

/-- What becomes of a token of the input. -/
inductive Fate where
  /-- It is in the tree, and nothing is reported about it. -/
  | kept
  /-- It is in the tree.  One of the expected kinds is missing before it, or
  behind it when it is the last token. -/
  | awaited (expected : List TokenKind) (atEnd : Bool)
  /-- It is passed over. -/
  | skipped
  deriving DecidableEq, Inhabited, Repr

/-- A token of the input and what becomes of it. -/
structure Account where
  token : Token
  fate : Fate
  deriving DecidableEq, Inhabited, Repr

namespace Account

def isKept (account : Account) : Bool :=
  match account.fate with
  | .kept => true
  | .awaited _ _ => true
  | .skipped => false

/-- The report about a token, which stands at the token. -/
def report? (account : Account) : Option Diagnostic :=
  match account.fate with
  | .kept => none
  | .awaited expected atEnd =>
      some ⟨.missingToken expected atEnd, account.token.span⟩
  | .skipped =>
      some ⟨.unexpectedToken account.token.kind, account.token.span⟩

def keptTokens (accounts : List Account) : List Token :=
  (accounts.filter isKept).map token

/-- The reports about some tokens, in the order of the tokens. -/
def reportsOf (accounts : List Account) : List Diagnostic :=
  accounts.filterMap report?

theorem keptTokens_concat (accounts : List Account) (account : Account) :
    keptTokens (accounts ++ [account]) =
      keptTokens accounts ++ keptTokens [account] := by
  simp [keptTokens]

theorem reportsOf_concat (accounts : List Account) (account : Account) :
    reportsOf (accounts ++ [account]) =
      reportsOf accounts ++ account.report?.toList := by
  cases report : account.report? <;> simp [reportsOf, report]

theorem keptTokens_sublist (accounts : List Account) :
    (keptTokens accounts).Sublist (accounts.map token) :=
  List.filter_sublist.map token

end Account

open Account (keptTokens reportsOf)
open Token (presentTokens presentTokens_of_kind)

namespace Cursor

/-- The accounts of the tokens that a cursor has passed agree with its reports.
A report about the next token has been made only where an enclosing construct
resumes on it. -/
inductive Settles (resumable : List TokenKind) :
    Cursor → List Account → Prop
  | ahead {token : Token} {rest : List Token} {last : Span}
      {accounts : List Account} :
      Settles resumable
        ⟨token :: rest, last, false, (reportsOf accounts).reverse⟩ accounts
  | awaited {token : Token} {rest : List Token} {last : Span}
      {accounts : List Account} {expected : List TokenKind} :
      token.kind ∈ resumable →
        Settles resumable
          ⟨token :: rest, last, true,
            ⟨.missingToken expected false, token.span⟩ ::
              (reportsOf accounts).reverse⟩ accounts
  | atEnd {accounts : List Account} {account : Account} :
      Settles resumable
        ⟨[], account.token.span, account.report?.isSome,
          (reportsOf (accounts ++ [account])).reverse⟩
        (accounts ++ [account])
  | nothing {last : Span} : Settles resumable ⟨[], last, true, []⟩ []

/-- The tokens of the input before a cursor are accounted for, and those of them
that are kept are the ones `taken` into the tree, stand-ins apart. -/
def Accounts (cursor : Cursor) (resumable : List TokenKind)
    (input taken : List Token) : Prop :=
  ∃ accounts, cursor.Settles resumable accounts ∧
    accounts.map Account.token ++ cursor.rest = input ∧
    keptTokens accounts = presentTokens taken

theorem eq_of_isBefore {cursor : Cursor} {close kind : TokenKind}
    (before : cursor.isBefore close = true)
    (isNext : cursor.isNext kind = true) : kind = close := by
  obtain ⟨tokens, last, isReported, found⟩ := cursor
  cases tokens with
  | nil => simp [Cursor.isNext] at isNext
  | cons token rest =>
      simp only [Cursor.isNext, List.head?_cons, Option.any_some,
        beq_iff_eq] at isNext
      simpa [isBefore, isAtEnd, Cursor.isNext, isNext] using before

theorem Settles.mono {resumable wider : List TokenKind} {cursor : Cursor}
    {accounts : List Account} (settles : cursor.Settles resumable accounts)
    (included : ∀ kind ∈ resumable,
      cursor.isNext kind = true → kind ∈ wider) :
    cursor.Settles wider accounts := by
  cases settles with
  | ahead => exact .ahead
  | awaited resumed => exact .awaited (included _ resumed (by simp [isNext]))
  | atEnd => exact .atEnd
  | nothing => exact .nothing

theorem Accounts.mono {resumable wider : List TokenKind}
    {input taken : List Token} {cursor : Cursor}
    (accounted : cursor.Accounts resumable input taken)
    (included : ∀ kind ∈ resumable, kind ∈ wider) :
    cursor.Accounts wider input taken := by
  obtain ⟨accounts, settles, inputEq, kept⟩ := accounted
  exact ⟨accounts, settles.mono fun kind resumed _ => included kind resumed,
    inputEq, kept⟩

/-- Right behind a token nothing is reported about the next one. -/
theorem settles_behind (resumable : List TokenKind) (account : Account)
    (rest : List Token) (accounts : List Account) :
    Settles resumable
      ⟨rest, account.token.span, account.report?.isSome && rest.isEmpty,
        (reportsOf (accounts ++ [account])).reverse⟩
      (accounts ++ [account]) := by
  cases rest with
  | nil =>
      rw [List.isEmpty_nil, Bool.and_true]
      exact .atEnd
  | cons token rest =>
      rw [List.isEmpty_cons, Bool.and_false]
      exact .ahead

/-- A token that is taken is kept, whether or not it has been reported. -/
theorem Settles.keep {resumable : List TokenKind} {token : Token}
    {rest : List Token} {last : Span} {isReported : Bool}
    {found : List Diagnostic} {accounts : List Account}
    (settles : Settles resumable ⟨token :: rest, last, isReported, found⟩
      accounts) (wider : List TokenKind) :
    ∃ account : Account, account.token = token ∧ account.isKept = true ∧
      Settles wider ⟨rest, token.span, isReported && rest.isEmpty, found⟩
        (accounts ++ [account]) := by
  have exists_fate : ∃ fate, (Account.mk token fate).isKept = true ∧
      (Account.mk token fate).report?.isSome = isReported ∧
      (reportsOf (accounts ++ [⟨token, fate⟩])).reverse = found := by
    cases settles with
    | ahead =>
        refine ⟨.kept, rfl, rfl, ?_⟩
        simp [Account.reportsOf_concat, Account.report?]
    | @awaited _ _ _ _ expected _ =>
        refine ⟨.awaited expected false, rfl, rfl, ?_⟩
        simp [Account.reportsOf_concat, Account.report?]
  obtain ⟨fate, isKept, rfl, rfl⟩ := exists_fate
  exact ⟨⟨token, fate⟩, rfl, isKept,
    settles_behind wider ⟨token, fate⟩ rest accounts⟩

/-- Where the parser gives up at the end, the last token is reported, unless it
has been reported before. -/
theorem Settles.giveUp {resumable : List TokenKind} {last : Span}
    {isReported : Bool} {found : List Diagnostic} {accounts : List Account}
    (settles : Settles resumable ⟨[], last, isReported, found⟩ accounts)
    (wider expected : List TokenKind) :
    ∃ again, again.map Account.token = accounts.map Account.token ∧
      keptTokens again = keptTokens accounts ∧
      Settles wider
        ⟨[], last, true,
          report isReported ⟨.missingToken expected true, last⟩ found⟩
        again := by
  cases settles with
  | nothing => exact ⟨[], rfl, rfl, .nothing⟩
  | @atEnd accounts account =>
      obtain ⟨token, fate⟩ := account
      cases fate with
      | kept =>
          have settled := settles_behind wider
            ⟨token, .awaited expected true⟩ [] accounts
          refine ⟨accounts ++ [⟨token, .awaited expected true⟩], by simp,
            ?_, ?_⟩
          · rw [Account.keptTokens_concat, Account.keptTokens_concat]
            rfl
          · simpa [Account.reportsOf_concat, Account.report?, report]
              using settled
      | awaited _ _ =>
          exact ⟨_, rfl, rfl, settles_behind wider _ [] accounts⟩
      | skipped =>
          exact ⟨_, rfl, rfl, settles_behind wider _ [] accounts⟩

/-- Where an enclosing construct resumes, the next token is reported, unless it has
been reported before. -/
theorem Settles.await {held resumable : List TokenKind} {token : Token}
    {rest : List Token} {last : Span} {isReported : Bool}
    {found : List Diagnostic} {accounts : List Account}
    (settles : Settles held ⟨token :: rest, last, isReported, found⟩ accounts)
    (resumed : token.kind ∈ resumable) (expected : List TokenKind) :
    Settles resumable
      ⟨token :: rest, last, true,
        report isReported ⟨.missingToken expected false, token.span⟩ found⟩
      accounts := by
  cases settles with
  | ahead => exact .awaited resumed
  | awaited _ => exact .awaited resumed

/-- A token on which no enclosing construct resumes has not been reported before,
and is reported when it is passed over. -/
theorem Settles.skip {held : List TokenKind} {token : Token}
    {rest : List Token} {last : Span} {isReported : Bool}
    {found : List Diagnostic} {accounts : List Account}
    (settles : Settles held ⟨token :: rest, last, isReported, found⟩ accounts)
    (notHeld : token.kind ∉ held) :
    Settles []
      ⟨rest, token.span, rest.isEmpty,
        report isReported ⟨.unexpectedToken token.kind, token.span⟩ found⟩
      (accounts ++ [⟨token, .skipped⟩]) := by
  cases settles with
  | ahead =>
      have behind := settles_behind [] ⟨token, .skipped⟩ rest accounts
      simpa [Account.reportsOf_concat, Account.report?, report] using behind
  | awaited isHeld => exact absurd isHeld notHeld

theorem Settles.takeFrom {held resumable expected : List TokenKind}
    (missing : .missing ∉ expected) {tokens : List Token} {last : Span}
    {isReported : Bool} {found : List Diagnostic} {accounts : List Account}
    (settles : Settles held ⟨tokens, last, isReported, found⟩ accounts)
    (resumes : ∀ kind ∈ held, kind ∈ resumable ∨ kind ∈ expected)
    {taken : List Token} (kept : keptTokens accounts = presentTokens taken) :
    Accounts
      (takeFrom resumable expected last isReported found tokens).2 resumable
      (accounts.map Account.token ++ tokens)
      (taken ++ [(Cursor.takeFrom resumable expected last isReported found
        tokens).1]) := by
  have standIn (span : Span) :
      presentTokens (taken ++ [Token.missing span]) = presentTokens taken := by
    rw [Token.presentTokens_append, Token.presentTokens_missing,
      List.append_nil]
  induction tokens generalizing held last isReported found accounts with
  | nil =>
      obtain ⟨again, tokens, stillKept, settled⟩ :=
        settles.giveUp resumable expected
      refine ⟨again, settled, by simp [Cursor.takeFrom, tokens], ?_⟩
      rw [stillKept, kept, Cursor.takeFrom, standIn]
  | cons token rest inductionHypothesis =>
      simp only [Cursor.takeFrom, List.contains_iff_mem]
      split
      · rename_i wanted
        obtain ⟨account, rfl, isKept, settled⟩ := settles.keep resumable
        refine ⟨accounts ++ [account], settled, by simp, ?_⟩
        rw [Token.presentTokens_append, Account.keptTokens_concat, kept,
          presentTokens_of_kind wanted missing]
        simp [keptTokens, isKept]
      · rename_i unwanted
        split
        · rename_i resumed
          refine ⟨accounts, settles.await resumed expected, rfl, ?_⟩
          rw [kept, standIn]
        · rename_i notResumed
          have notHeld : token.kind ∉ held := fun isHeld =>
            (resumes _ isHeld).elim notResumed unwanted
          have stillKept : keptTokens (accounts ++ [⟨token, .skipped⟩]) =
              presentTokens taken := by
            rw [Account.keptTokens_concat, kept]
            simp [keptTokens, Account.isKept]
          have behind := inductionHypothesis (settles.skip notHeld) (by simp)
            stillKept
          simpa using behind

/-- A step accounts for the tokens it passes over and for the one it takes. -/
theorem Accounts.take {held : List TokenKind} {input taken : List Token}
    {cursor : Cursor} (accounted : cursor.Accounts held input taken)
    (resumable expected : List TokenKind) (missing : .missing ∉ expected)
    (resumes : ∀ kind ∈ held, kind ∈ resumable ∨ kind ∈ expected) :
    (cursor.take resumable expected).2.Accounts resumable input
      (taken ++ [(cursor.take resumable expected).1]) := by
  obtain ⟨accounts, settles, rfl, kept⟩ := accounted
  exact settles.takeFrom missing resumes kept

theorem Accounts.takeComma {held : List TokenKind} {input taken : List Token}
    {cursor : Cursor} (accounted : cursor.Accounts held input taken) :
    cursor.takeComma.2.Accounts held input
      (taken ++ cursor.takeComma.1.toList) := by
  obtain ⟨tokens, last, isReported, found⟩ := cursor
  cases tokens with
  | nil => simpa [Cursor.takeComma] using accounted
  | cons token rest =>
      unfold Cursor.takeComma
      dsimp only
      split
      · rename_i isComma
        obtain ⟨accounts, settles, rfl, kept⟩ := accounted
        obtain ⟨account, rfl, isKept, settled⟩ := settles.keep held
        refine ⟨accounts ++ [account], settled, by simp, ?_⟩
        rw [Token.presentTokens_append, Account.keptTokens_concat, kept,
          Option.toList_some,
          presentTokens_of_kind (List.mem_singleton.mpr isComma) (by decide)]
        simp [keptTokens, isKept]
      · simpa using accounted

/-- At the end all reports belong to accounts. -/
theorem Settles.reportsOf_eq {resumable : List TokenKind} {cursor : Cursor}
    {accounts : List Account} (settles : cursor.Settles resumable accounts)
    (atEnd : cursor.rest = []) :
    reportsOf accounts = cursor.reports.reverse := by
  cases settles with
  | ahead => simp at atEnd
  | awaited _ => simp at atEnd
  | atEnd => simp
  | nothing => rfl

theorem accounts_start (resumable : List TokenKind) (tokens : List Token) :
    (start tokens).Accounts resumable tokens [] := by
  cases tokens with
  | nil => exact ⟨[], .nothing, rfl, rfl⟩
  | cons token rest => exact ⟨[], @Settles.ahead _ token rest _ [], rfl, rfl⟩

/-- What the loop reads is accounted for, if each piece is. -/
theorem Repeats.accounts {Piece : Type} {close : TokenKind}
    {held resumable expected : List TokenKind}
    {parsePiece : Token → Cursor → Piece × Cursor}
    {tokensOf : Piece → List Token} {input : List Token}
    (missing : .missing ∉ expected)
    (resumes : ∀ kind ∈ held, kind ∈ resumable ∨ kind ∈ expected)
    (closes : ∀ kind ∈ held, kind = close → kind ∈ resumable)
    (parsePiece_accounts : ∀ {first : Token} {cursor : Cursor}
      {taken : List Token},
      cursor.Accounts resumable input (taken ++ [first]) →
        (parsePiece first cursor).2.Accounts held input
          (taken ++ tokensOf (parsePiece first cursor).1))
    {cursor finish : Cursor} {pieces : List Piece}
    (run : Repeats close resumable expected parsePiece cursor pieces finish)
    {taken : List Token} (accounted : cursor.Accounts held input taken) :
    finish.Accounts resumable input (taken ++ pieces.flatMap tokensOf) := by
  induction run generalizing taken with
  | @stop cursor before =>
      obtain ⟨accounts, settles, inputEq, kept⟩ := accounted
      refine ⟨accounts, settles.mono fun kind isHeld isNext => ?_, inputEq,
        by simpa using kept⟩
      exact closes kind isHeld (eq_of_isBefore before isNext)
  | @giveUp cursor _ absent =>
      obtain ⟨accounts, settles, inputEq, kept⟩ :=
        accounted.take resumable expected missing resumes
      refine ⟨accounts, settles, inputEq, ?_⟩
      rw [kept]
      simp [presentTokens, absent]
  | piece _ _ _ inductionHypothesis =>
      have piece := parsePiece_accounts (accounted.take resumable expected missing resumes)
      have others := inductionHypothesis piece
      simpa [List.append_assoc] using others

end Cursor

namespace SyntaxTree

variable {input taken : List Token} {cursor : Cursor}

theorem parseItem_accounts {value : Token}
    (accounted : cursor.Accounts propertyResumable input
      (taken ++ [value])) :
    (parseItem value cursor).2.Accounts propertyResumable input
      (taken ++ (parseItem value cursor).1.tokens) := by
  have behind := accounted.takeComma
  rwa [List.append_assoc] at behind

theorem parseItems_accounts
    (accounted : cursor.Accounts propertyResumable input taken) :
    (parseItems cursor).2.Accounts propertyResumable input
      (taken ++ (parseItems cursor).1.flatMap ArrayItem.tokens) :=
  (parseItems_repeats cursor).accounts (by decide)
    (fun _ isHeld => Or.inl isHeld) (fun _ isHeld _ => isHeld)
    parseItem_accounts accounted

/-- A member without a value may have been reported at the next name. -/
theorem parseMember_accounts {name : Token}
    (accounted : cursor.Accounts propertyResumable input
      (taken ++ [name])) :
    (parseMember name cursor).2.Accounts memberResumable input
      (taken ++ (parseMember name cursor).1.tokens) := by
  have behindEqual := accounted.take memberResumable [.equal]
    (by decide) (by decide)
  have behindValue := behindEqual.take memberResumable [.string]
    (by decide) (by decide)
  have behind := behindValue.takeComma
  simpa [parseMember, ObjectMember.tokens] using behind

theorem parseMembers_accounts
    (accounted : cursor.Accounts memberResumable input taken) :
    (parseMembers cursor).2.Accounts propertyResumable input
      (taken ++ (parseMembers cursor).1.flatMap ObjectMember.tokens) :=
  (parseMembers_repeats cursor).accounts (by decide) (by decide) (by decide)
    parseMember_accounts accounted

theorem parseValue_accounts {first : Token}
    (accounted : cursor.Accounts propertyResumable input
      (taken ++ [first])) :
    (parseValue first cursor).2.Accounts propertyResumable input
      (taken ++ (parseValue first cursor).1.tokens) := by
  unfold parseValue
  split
  · have behind := (parseItems_accounts accounted).take
      propertyResumable [.rightBracket] (by decide) (by decide)
    simpa [PropertyValue.tokens] using behind
  · have behind := (parseMembers_accounts (accounted.mono (by decide))).take
      propertyResumable [.rightBrace] (by decide) (by decide)
    simpa [PropertyValue.tokens] using behind
  · exact accounted

theorem parseProperty_accounts {key : Token}
    (accounted : cursor.Accounts bodyResumable input (taken ++ [key])) :
    (parseProperty key cursor).2.Accounts propertyResumable input
      (taken ++ (parseProperty key cursor).1.tokens) := by
  have behindEqual := accounted.take propertyResumable [.equal]
    (by decide) (by decide)
  have behindFirst := behindEqual.take propertyResumable
    [.string, .leftBrace, .leftBracket] (by decide) (by decide)
  have behind := parseValue_accounts behindFirst
  simpa [parseProperty, Property.tokens] using behind

theorem parseProperties_accounts
    (accounted : cursor.Accounts propertyResumable input taken) :
    (parseProperties cursor).2.Accounts bodyResumable input
      (taken ++ (parseProperties cursor).1.flatMap Property.tokens) :=
  (parseProperties_repeats cursor).accounts (by decide) (by decide)
    (by decide) parseProperty_accounts accounted

theorem parseVersion_accounts {keyword : Token}
    (accounted : cursor.Accounts [] input (taken ++ [keyword])) :
    (parseVersion keyword cursor).2.Accounts statementKeywords input
      (taken ++ (parseVersion keyword cursor).1.tokens) := by
  have behindEqual := accounted.take statementKeywords [.equal]
    (by decide) (by decide)
  have behind := behindEqual.take statementKeywords [.integer]
    (by decide) (by decide)
  simpa [parseVersion, VersionStatement.tokens] using behind

theorem parseBlock_accounts (kind : BlockKind) {keyword : Token}
    (accounted : cursor.Accounts [] input (taken ++ [keyword])) :
    (parseBlock kind keyword cursor).2.Accounts statementKeywords input
      (taken ++ (parseBlock kind keyword cursor).1.tokens) := by
  have behindName := accounted.take statementKeywords [.string]
    (by decide) (by decide)
  have behindOpen := behindName.take statementKeywords [.leftBrace]
    (by decide) (by decide)
  have behindProperties :=
    parseProperties_accounts (behindOpen.mono (by decide))
  have behind := behindProperties.take statementKeywords [.rightBrace]
    (by decide) (by decide)
  simpa [parseBlock, Block.tokens] using behind

theorem parseAfterKeyword_accounts {keyword : Token}
    (isKeyword : keyword.kind ∈ statementKeywords ∨
      keyword.isMissing = true)
    (accounted : cursor.Accounts [] input (taken ++ [keyword])) :
    (parseAfterKeyword keyword cursor).2.Accounts statementKeywords input
      (taken ++ (parseAfterKeyword keyword cursor).1.toList.flatMap
        Statement.tokens) := by
  unfold parseAfterKeyword
  split
  · simpa [Statement.tokens] using parseVersion_accounts accounted
  · simpa [Statement.tokens] using parseBlock_accounts .workflow accounted
  · simpa [Statement.tokens] using parseBlock_accounts .action accounted
  · rename_i notVersion notWorkflow notAction
    have absent : keyword.isMissing = true := by
      refine isKeyword.resolve_left ?_
      simp only [statementKeywords, List.mem_cons, List.not_mem_nil, or_false]
      rintro (isVersion | isWorkflow | isAction)
      · exact notVersion isVersion
      · exact notWorkflow isWorkflow
      · exact notAction isAction
    obtain ⟨accounts, settles, inputEq, kept⟩ :=
      accounted.mono (List.nil_subset statementKeywords)
    refine ⟨accounts, settles, inputEq, ?_⟩
    rw [kept]
    simp [presentTokens, absent]

theorem parseStatements_accounts
    (accounted : cursor.Accounts statementKeywords input taken) :
    (parseStatements cursor).2.Accounts statementKeywords input
      (taken ++ (parseStatements cursor).1.flatMap Statement.tokens) := by
  fun_induction parseStatements cursor generalizing taken with
  | case1 cursor _ keyword statement others =>
      rename_i inductionHypothesis
      have begins := accounted.take [] statementKeywords (by decide)
        fun _ isHeld => Or.inr isHeld
      have first := parseAfterKeyword_accounts
        (cursor.kind_take [] statementKeywords) begins
      simpa [List.append_assoc] using inductionHypothesis first
  | case2 cursor => simpa using accounted

end SyntaxTree

namespace Parse

/-- Every grammatical token has one account, which has at most one report.  The
tokens that are kept are those of the tree, stand-ins apart, and the reports are
all diagnostics, in the order of their tokens. -/
structure AccountsFor (tokens : List Token) (accounts : List Account) :
    Prop where
  tokens_eq : accounts.map Account.token = grammatical tokens
  kept_eq : keptTokens accounts = presentTokens (ofTokens tokens).tree.tokens
  reports_eq : reportsOf accounts = (ofTokens tokens).diagnostics

theorem exists_accountsFor (tokens : List Token) :
    ∃ accounts, AccountsFor tokens accounts := by
  obtain ⟨accounts, settles, inputEq, kept⟩ :=
    SyntaxTree.parseStatements_accounts
      (Cursor.accounts_start statementKeywords (grammatical tokens))
  have atEnd := SyntaxTree.rest_parseStatements
    (Cursor.start (grammatical tokens))
  rw [atEnd, List.append_nil] at inputEq
  exact ⟨accounts, inputEq, kept, settles.reportsOf_eq atEnd⟩

/-- The tokens of a tree are tokens of the input in their order, stand-ins
apart. -/
theorem presentTokens_sublist (tokens : List Token) :
    (presentTokens (ofTokens tokens).tree.tokens).Sublist
      (grammatical tokens) := by
  obtain ⟨accounts, tokensEq, keptEq, -⟩ := exists_accountsFor tokens
  rw [← keptEq, ← tokensEq]
  exact Account.keptTokens_sublist accounts

/-- Tokens of a tree of which none is a stand-in are tokens of the input in their
order. -/
theorem sublist_of_present {tokens found : List Token}
    (inTree : found.Sublist (ofTokens tokens).tree.tokens)
    (present : ∀ token ∈ found, token.isMissing = false) :
    found.Sublist tokens := by
  have presentTokens := inTree.filter fun token => !token.isMissing
  rw [List.filter_eq_self.mpr fun token member => by
    simp [present token member]] at presentTokens
  exact (presentTokens.trans (presentTokens_sublist tokens)).trans
    List.filter_sublist

theorem mem_of_present {tokens : List Token} {token : Token}
    (inTree : token ∈ (ofTokens tokens).tree.tokens)
    (present : token.isMissing = false) : token ∈ tokens :=
  List.singleton_sublist.mp (sublist_of_present
    (List.singleton_sublist.mpr inTree) (by simp [present]))

theorem isMissing_eq_false_of_diagnostics_eq_nil {tokens : List Token}
    (quiet : (ofTokens tokens).diagnostics = []) {token : Token}
    (member : token ∈ (ofTokens tokens).tree.tokens) :
    token.isMissing = false := by
  obtain ⟨tree, document⟩ := of_diagnostics_eq_nil quiet
  rw [tree] at member
  by_contra present
  have isMissing : token.kind = .missing := by
    simpa [Token.isMissing] using present
  apply Grammar.missing_notMem_document document
  rw [← isMissing]
  exact List.mem_map_of_mem member

/-- Every token is accounted for once: it is kept in the tree, where another one
may have been reported missing at its place, or it is passed over and reported as
unexpected.  A tree with a stand-in has a report. -/
theorem tokens_accounted (tokens : List Token) :
    (∃ accounts, AccountsFor tokens accounts) ∧
      ((∃ token ∈ (ofTokens tokens).tree.tokens, token.isMissing = true) →
        (ofTokens tokens).diagnostics ≠ []) := by
  refine ⟨exists_accountsFor tokens, ?_⟩
  rintro ⟨token, member, isMissing⟩ quiet
  have present := isMissing_eq_false_of_diagnostics_eq_nil quiet member
  rw [isMissing] at present
  contradiction

/-- A member without a value in front of another one, in an action that ends
behind a comma. -/
def interruptedTokens : List Token :=
  [.action, .string, .leftBrace, .env, .equal, .comma, .leftBrace,
    .identifier, .equal, .identifier, .equal, .string, .comma].map
      fun kind => ⟨kind, Span.origin, kind.description⟩

theorem tokens_accounted_interruptedTokens :
    (∃ token ∈ (ofTokens interruptedTokens).tree.tokens,
        token.isMissing = true) ∧
      (∃ accounts, AccountsFor interruptedTokens accounts) ∧
      (ofTokens interruptedTokens).diagnostics ≠ [] := by
  have absent : ∃ token ∈ (ofTokens interruptedTokens).tree.tokens,
      token.isMissing = true := by
    decide +kernel
  obtain ⟨accounted, reported⟩ := tokens_accounted interruptedTokens
  exact ⟨absent, accounted, reported absent⟩

end Parse

end WorkflowLang
