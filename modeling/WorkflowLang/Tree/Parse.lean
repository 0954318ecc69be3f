import WorkflowLang.Tree
import WorkflowLang.Diagnostic

/-!
# Parsing with recovery

The grammar of documents is

* document: statements,
* version statement: `version`, `=`, an integer,
* block: `workflow` or `action`, a string, `{`, properties, `}`,
* property: a property keyword, `=`, then a string, an array or an object,
* array: `[`, strings each with an optional comma behind it, `]`,
* object: `{`, members each with an optional comma behind it, `}`,
* member: an identifier, `=`, a string.

Parsing never fails.  Every step asks for tokens of some kinds and knows which
kinds an enclosing construct can resume on.  Tokens of other kinds are skipped;
at a token that can be resumed on, or at the end, the step gives up and yields a
stand-in.  A report is made about a token at most once.
-/

namespace WorkflowLang

/-- A place between two tokens, and what has been reported before it. -/
structure Cursor where
  /-- The tokens ahead. -/
  rest : List Token
  /-- Where the token just passed stands; reports at the end go there. -/
  last : Span
  /-- There is a report about the next token, or about the last one at the
  end. -/
  isReported : Bool
  /-- The reports made so far, newest first. -/
  reports : List Diagnostic
  deriving DecidableEq, Inhabited, Repr

namespace Cursor

/-- The place before the first token. -/
def start (tokens : List Token) : Cursor :=
  ⟨tokens, Span.origin, tokens.isEmpty, []⟩

def isAtEnd (cursor : Cursor) : Bool := cursor.rest.isEmpty

def isNext (cursor : Cursor) (kind : TokenKind) : Bool :=
  cursor.rest.head?.any fun token => token.kind == kind

/-- Adds a report unless there is one about the same token. -/
def report (isReported : Bool) (diagnostic : Diagnostic)
    (reports : List Diagnostic) : List Diagnostic :=
  if isReported then reports else diagnostic :: reports

/-- The step `take` on the parts of a cursor. -/
def takeFrom (resumable expected : List TokenKind) (last : Span)
    (isReported : Bool) (reports : List Diagnostic) :
    List Token → Token × Cursor
  | [] =>
      (Token.missing last,
        ⟨[], last, true,
          report isReported ⟨.missingToken expected true, last⟩ reports⟩)
  | token :: rest =>
      if expected.contains token.kind then
        (token, ⟨rest, token.span, isReported && rest.isEmpty, reports⟩)
      else if resumable.contains token.kind then
        (Token.missing token.span,
          ⟨token :: rest, last, true,
            report isReported ⟨.missingToken expected false, token.span⟩
              reports⟩)
      else
        takeFrom resumable expected token.span rest.isEmpty
          (report isReported ⟨.unexpectedToken token.kind, token.span⟩ reports)
          rest

/-- Takes the next token of an expected kind, skipping and reporting tokens on
the way to it.  A stand-in is taken at a token an enclosing construct can resume
on, and at the end. -/
def take (cursor : Cursor) (resumable expected : List TokenKind) :
    Token × Cursor :=
  takeFrom resumable expected cursor.last cursor.isReported cursor.reports
    cursor.rest

def takeComma (cursor : Cursor) : Option Token × Cursor :=
  match cursor.rest with
  | [] => (none, cursor)
  | token :: rest =>
      if token.kind = .comma then
        (some token,
          ⟨rest, token.span, cursor.isReported && rest.isEmpty,
            cursor.reports⟩)
      else (none, cursor)

theorem length_rest_takeFrom_le (resumable expected : List TokenKind)
    (last : Span) (isReported : Bool) (reports : List Diagnostic)
    (tokens : List Token) :
    (takeFrom resumable expected last isReported reports
      tokens).2.rest.length ≤ tokens.length := by
  induction tokens generalizing last isReported reports with
  | nil => simp [takeFrom]
  | cons token rest inductionHypothesis =>
      simp only [takeFrom]
      split
      · simp
      · split
        · simp
        · exact Nat.le_succ_of_le (inductionHypothesis _ _ _)

theorem length_rest_takeFrom_lt (resumable expected : List TokenKind)
    (last : Span) (isReported : Bool) (reports : List Diagnostic)
    (tokens : List Token)
    (present : (takeFrom resumable expected last isReported reports
      tokens).1.isMissing = false) :
    (takeFrom resumable expected last isReported reports
      tokens).2.rest.length < tokens.length := by
  induction tokens generalizing last isReported reports with
  | nil => simp [takeFrom] at present
  | cons token rest inductionHypothesis =>
      simp only [takeFrom] at present ⊢
      split
      · simp
      · rename_i unexpected
        split
        · rename_i resumed
          rw [if_neg unexpected, if_pos resumed] at present
          simp at present
        · rename_i skipped
          rw [if_neg unexpected, if_neg skipped] at present
          exact Nat.lt_succ_of_lt (inductionHypothesis _ _ _ present)

theorem length_rest_take_le (cursor : Cursor)
    (resumable expected : List TokenKind) :
    (cursor.take resumable expected).2.rest.length ≤ cursor.rest.length :=
  length_rest_takeFrom_le _ _ _ _ _ _

theorem length_rest_take_lt (cursor : Cursor)
    (resumable expected : List TokenKind)
    (present : (cursor.take resumable expected).1.isMissing = false) :
    (cursor.take resumable expected).2.rest.length < cursor.rest.length :=
  length_rest_takeFrom_lt _ _ _ _ _ _ present

/-- Where nothing can be resumed on, every step makes progress. -/
theorem length_rest_take_nil_lt (cursor : Cursor)
    (expected : List TokenKind) (ahead : cursor.isAtEnd = false) :
    (cursor.take [] expected).2.rest.length < cursor.rest.length := by
  unfold take
  cases tokens : cursor.rest with
  | nil => simp [isAtEnd, tokens] at ahead
  | cons token rest =>
      simp only [takeFrom]
      split
      · simp
      · simpa using Nat.lt_succ_of_le (length_rest_takeFrom_le _ _ _ _ _ _)

theorem length_rest_takeComma_le (cursor : Cursor) :
    cursor.takeComma.2.rest.length ≤ cursor.rest.length := by
  unfold takeComma
  split
  · exact Nat.le_refl _
  · rename_i tokens
    split
    · simp [tokens]
    · exact Nat.le_refl _

end Cursor

namespace SyntaxTree

open TokenKind (statementKeywords propertyKeywords)

def bodyResumable : List TokenKind := statementKeywords ++ [.rightBrace]

def propertyResumable : List TokenKind := bodyResumable ++ propertyKeywords

/-- What an object member can be resumed on: a member without a value gives way
to the next member. -/
def memberResumable : List TokenKind := propertyResumable ++ [.identifier]

/-- Strings with optional commas, up to a closing bracket. -/
def parseItems (cursor : Cursor) : List ArrayItem × Cursor :=
  if cursor.isAtEnd || cursor.isNext .rightBracket then ([], cursor)
  else
    let value := cursor.take propertyResumable [.string]
    if _present : value.1.isMissing = false then
      let comma := value.2.takeComma
      let others := parseItems comma.2
      (⟨value.1, comma.1⟩ :: others.1, others.2)
    else ([], value.2)
termination_by cursor.rest.length
decreasing_by
  exact Nat.lt_of_le_of_lt (Cursor.length_rest_takeComma_le _)
    (Cursor.length_rest_take_lt _ _ _ _present)

def parseMember (name : Token) (cursor : Cursor) : ObjectMember × Cursor :=
  let equal := cursor.take memberResumable [.equal]
  let value := equal.2.take memberResumable [.string]
  let comma := value.2.takeComma
  (⟨name, equal.1, value.1, comma.1⟩, comma.2)

theorem length_rest_parseMember_le (name : Token) (cursor : Cursor) :
    (parseMember name cursor).2.rest.length ≤ cursor.rest.length :=
  Nat.le_trans (Cursor.length_rest_takeComma_le _)
    (Nat.le_trans (Cursor.length_rest_take_le _ _ _)
      (Cursor.length_rest_take_le _ _ _))

/-- Members with optional commas, up to a closing brace. -/
def parseMembers (cursor : Cursor) : List ObjectMember × Cursor :=
  if cursor.isAtEnd || cursor.isNext .rightBrace then ([], cursor)
  else
    let name := cursor.take propertyResumable [.identifier]
    if _present : name.1.isMissing = false then
      let member := parseMember name.1 name.2
      let others := parseMembers member.2
      (member.1 :: others.1, others.2)
    else ([], name.2)
termination_by cursor.rest.length
decreasing_by
  exact Nat.lt_of_le_of_lt (length_rest_parseMember_le _ _)
    (Cursor.length_rest_take_lt _ _ _ _present)

theorem length_rest_parseItems_le (cursor : Cursor) :
    (parseItems cursor).2.rest.length ≤ cursor.rest.length := by
  fun_induction parseItems cursor with
  | case1 => exact Nat.le_refl _
  | case2 cursor _ value _ comma _ inductionHypothesis =>
      exact Nat.le_trans inductionHypothesis
        (Nat.le_trans (Cursor.length_rest_takeComma_le _)
          (Cursor.length_rest_take_le _ _ _))
  | case3 => exact Cursor.length_rest_take_le _ _ _

theorem length_rest_parseMembers_le (cursor : Cursor) :
    (parseMembers cursor).2.rest.length ≤ cursor.rest.length := by
  fun_induction parseMembers cursor with
  | case1 => exact Nat.le_refl _
  | case2 cursor _ name _ member _ inductionHypothesis =>
      exact Nat.le_trans inductionHypothesis
        (Nat.le_trans (length_rest_parseMember_le _ _)
          (Cursor.length_rest_take_le _ _ _))
  | case3 => exact Cursor.length_rest_take_le _ _ _

def parseValue (first : Token) (cursor : Cursor) : PropertyValue × Cursor :=
  match first.kind with
  | .leftBracket =>
      let items := parseItems cursor
      let close := items.2.take propertyResumable [.rightBracket]
      (.array first items.1 close.1, close.2)
  | .leftBrace =>
      let members := parseMembers cursor
      let close := members.2.take propertyResumable [.rightBrace]
      (.object first members.1 close.1, close.2)
  | _ => (.string first, cursor)

theorem length_rest_parseValue_le (first : Token) (cursor : Cursor) :
    (parseValue first cursor).2.rest.length ≤ cursor.rest.length := by
  unfold parseValue
  split
  · exact Nat.le_trans (Cursor.length_rest_take_le _ _ _)
      (length_rest_parseItems_le _)
  · exact Nat.le_trans (Cursor.length_rest_take_le _ _ _)
      (length_rest_parseMembers_le _)
  · exact Nat.le_refl _

def parseProperty (key : Token) (cursor : Cursor) : Property × Cursor :=
  let equal := cursor.take propertyResumable [.equal]
  let first :=
    equal.2.take propertyResumable [.string, .leftBrace, .leftBracket]
  let value := parseValue first.1 first.2
  (⟨key, equal.1, value.1⟩, value.2)

theorem length_rest_parseProperty_le (key : Token) (cursor : Cursor) :
    (parseProperty key cursor).2.rest.length ≤ cursor.rest.length :=
  Nat.le_trans (length_rest_parseValue_le _ _)
    (Nat.le_trans (Cursor.length_rest_take_le _ _ _)
      (Cursor.length_rest_take_le _ _ _))

def parseProperties (cursor : Cursor) : List Property × Cursor :=
  if cursor.isAtEnd || cursor.isNext .rightBrace then ([], cursor)
  else
    let key := cursor.take bodyResumable propertyKeywords
    if _present : key.1.isMissing = false then
      let property := parseProperty key.1 key.2
      let others := parseProperties property.2
      (property.1 :: others.1, others.2)
    else ([], key.2)
termination_by cursor.rest.length
decreasing_by
  exact Nat.lt_of_le_of_lt (length_rest_parseProperty_le _ _)
    (Cursor.length_rest_take_lt _ _ _ _present)

theorem length_rest_parseProperties_le (cursor : Cursor) :
    (parseProperties cursor).2.rest.length ≤ cursor.rest.length := by
  fun_induction parseProperties cursor with
  | case1 => exact Nat.le_refl _
  | case2 cursor _ key _ property _ inductionHypothesis =>
      exact Nat.le_trans inductionHypothesis
        (Nat.le_trans (length_rest_parseProperty_le _ _)
          (Cursor.length_rest_take_le _ _ _))
  | case3 => exact Cursor.length_rest_take_le _ _ _

def parseVersion (keyword : Token) (cursor : Cursor) :
    VersionStatement × Cursor :=
  let equal := cursor.take statementKeywords [.equal]
  let integer := equal.2.take statementKeywords [.integer]
  (⟨keyword, equal.1, integer.1⟩, integer.2)

def parseBlock (kind : BlockKind) (keyword : Token) (cursor : Cursor) :
    Block × Cursor :=
  let name := cursor.take statementKeywords [.string]
  let openBracket := name.2.take statementKeywords [.leftBrace]
  let properties := parseProperties openBracket.2
  let closeBracket := properties.2.take statementKeywords [.rightBrace]
  (⟨kind, keyword, name.1, openBracket.1, properties.1, closeBracket.1⟩,
    closeBracket.2)

/-- What follows a keyword on the top level; nothing when the keyword is
missing, which happens only at the end. -/
def parseAfterKeyword (keyword : Token) (cursor : Cursor) :
    Option Statement × Cursor :=
  match keyword.kind with
  | .version =>
      let version := parseVersion keyword cursor
      (some (.version version.1), version.2)
  | .workflow =>
      let block := parseBlock .workflow keyword cursor
      (some (.block block.1), block.2)
  | .action =>
      let block := parseBlock .action keyword cursor
      (some (.block block.1), block.2)
  | _ => (none, cursor)

theorem length_rest_parseVersion_le (keyword : Token) (cursor : Cursor) :
    (parseVersion keyword cursor).2.rest.length ≤ cursor.rest.length :=
  Nat.le_trans (Cursor.length_rest_take_le _ _ _)
    (Cursor.length_rest_take_le _ _ _)

theorem length_rest_parseBlock_le (kind : BlockKind) (keyword : Token)
    (cursor : Cursor) :
    (parseBlock kind keyword cursor).2.rest.length ≤ cursor.rest.length :=
  Nat.le_trans (Cursor.length_rest_take_le _ _ _)
    (Nat.le_trans (length_rest_parseProperties_le _)
      (Nat.le_trans (Cursor.length_rest_take_le _ _ _)
        (Cursor.length_rest_take_le _ _ _)))

theorem length_rest_parseAfterKeyword_le (keyword : Token)
    (cursor : Cursor) :
    (parseAfterKeyword keyword cursor).2.rest.length ≤
      cursor.rest.length := by
  unfold parseAfterKeyword
  split
  · exact length_rest_parseVersion_le keyword _
  · exact length_rest_parseBlock_le .workflow keyword _
  · exact length_rest_parseBlock_le .action keyword _
  · exact Nat.le_refl _

def parseStatements (cursor : Cursor) : List Statement × Cursor :=
  if _ahead : cursor.isAtEnd = false then
    let keyword := cursor.take [] statementKeywords
    let statement := parseAfterKeyword keyword.1 keyword.2
    let others := parseStatements statement.2
    (statement.1.toList ++ others.1, others.2)
  else ([], cursor)
termination_by cursor.rest.length
decreasing_by
  exact Nat.lt_of_le_of_lt (length_rest_parseAfterKeyword_le _ _)
    (Cursor.length_rest_take_nil_lt _ _ _ahead)

end SyntaxTree

/-- The tree of some tokens and the problems found while parsing. -/
structure Parse where
  tree : SyntaxTree
  diagnostics : List Diagnostic
  deriving DecidableEq, Inhabited, Repr

/-- Parses tokens; comments and unrecognized characters are left out first. -/
def Parse.ofTokens (tokens : List Token) : Parse :=
  let grammatical := tokens.filter fun token => !token.kind.isTrivia
  let parsed := SyntaxTree.parseStatements (Cursor.start grammatical)
  ⟨⟨parsed.1⟩, parsed.2.reports.reverse⟩

end WorkflowLang
