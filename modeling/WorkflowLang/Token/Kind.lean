/-!
# Kinds of tokens

The vocabulary of the workflow language: three keywords that begin a top-level
statement, eight that begin a property inside a block, six punctuation marks,
names, literals and comments.  Two further kinds stand for what a text does not
contain properly: `unrecognized` for a character outside the vocabulary, and
`missing` for a token the grammar asked for in vain.
-/

namespace WorkflowLang

inductive TokenKind where
  | version
  | workflow
  | action
  | on
  | resolves
  | uses
  | needs
  | runs
  | args
  | env
  | secrets
  | equal
  | comma
  | leftBrace
  | rightBrace
  | leftBracket
  | rightBracket
  | identifier
  | comment
  | integer
  | string
  | missing
  | unrecognized
  deriving DecidableEq, Inhabited, Repr

namespace TokenKind

/-- Keywords that begin a top-level statement. -/
def statementKeywords : List TokenKind :=
  [.version, .workflow, .action]

/-- Keywords that begin a property inside a block. -/
def propertyKeywords : List TokenKind :=
  [.on, .resolves, .uses, .needs, .runs, .args, .env, .secrets]

def keywords : List TokenKind :=
  statementKeywords ++ propertyKeywords

/-- The name of a kind in messages; the spelling itself for keywords and
punctuation. -/
def description : TokenKind → String
  | .version => "version"
  | .workflow => "workflow"
  | .action => "action"
  | .on => "on"
  | .resolves => "resolves"
  | .uses => "uses"
  | .needs => "needs"
  | .runs => "runs"
  | .args => "args"
  | .env => "env"
  | .secrets => "secrets"
  | .equal => "="
  | .comma => ","
  | .leftBrace => "\x7b"
  | .rightBrace => "\x7d"
  | .leftBracket => "["
  | .rightBracket => "]"
  | .identifier => "identifier"
  | .comment => "comment"
  | .integer => "integer"
  | .string => "string"
  | .missing => "missing"
  | .unrecognized => "unrecognized"

def isKeyword (kind : TokenKind) : Bool :=
  keywords.contains kind

/-- Tokens the grammar never sees. -/
def isTrivia : TokenKind → Bool
  | .comment => true
  | .unrecognized => true
  | _ => false

/-- The kind of a word: the keyword it spells, or an identifier. -/
def ofWord (word : String) : TokenKind :=
  (keywords.find? fun keyword => keyword.description == word).getD .identifier

end TokenKind

inductive BlockKind where
  | workflow
  | action
  deriving DecidableEq, Inhabited, Repr

namespace BlockKind

/-- The word that begins a block of this kind. -/
def keyword : BlockKind → TokenKind
  | .workflow => .workflow
  | .action => .action

def properties : BlockKind → List TokenKind
  | .workflow => [.on, .resolves]
  | .action => [.uses, .needs, .runs, .args, .env, .secrets]

def requiredProperty : BlockKind → TokenKind
  | .workflow => .on
  | .action => .uses

end BlockKind
end WorkflowLang
