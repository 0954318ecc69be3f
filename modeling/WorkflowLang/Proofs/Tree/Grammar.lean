import WorkflowLang.Tree.Parse
import Mathlib.Data.List.Basic

/-!
# The language of faultless documents

The grammar is a family of predicates on lists of token kinds.  The parser
never fails, so it decides the language by its reports: it makes none exactly on
the lists the grammar derives (`Parse.diagnostics_eq_nil_iff_derives`), and then
its tree is made of the tokens it was given, in their order and without a
stand-in.
-/

namespace WorkflowLang

namespace Grammar

open TokenKind (propertyKeywords)

/-- Pieces of one shape, any number of them. -/
inductive Repeated (Piece : List TokenKind → Prop) : List TokenKind → Prop
  | nil : Repeated Piece []
  | cons {piece others : List TokenKind} :
      Piece piece → Repeated Piece others → Repeated Piece (piece ++ others)

/-- A string in an array, with an optional comma. -/
inductive Item : List TokenKind → Prop
  | plain : Item [.string]
  | separated : Item [.string, .comma]

/-- A member of an object, with an optional comma. -/
inductive Member : List TokenKind → Prop
  | plain : Member [.identifier, .equal, .string]
  | separated : Member [.identifier, .equal, .string, .comma]

inductive Value : List TokenKind → Prop
  | string : Value [.string]
  | array {items : List TokenKind} :
      Repeated Item items → Value (.leftBracket :: (items ++ [.rightBracket]))
  | object {members : List TokenKind} :
      Repeated Member members →
        Value (.leftBrace :: (members ++ [.rightBrace]))

inductive Property : List TokenKind → Prop
  | definition {key : TokenKind} {value : List TokenKind} :
      key ∈ propertyKeywords → Value value → Property (key :: .equal :: value)

inductive Statement : List TokenKind → Prop
  | version : Statement [.version, .equal, .integer]
  | block (kind : BlockKind) {properties : List TokenKind} :
      Repeated Property properties →
        Statement (kind.keyword :: .string :: .leftBrace ::
          (properties ++ [.rightBrace]))

/-- A document: any number of statements. -/
def Document : List TokenKind → Prop :=
  Repeated Statement

/-- No document asks for a token that stands for an absent one. -/
theorem missing_notMem_of_repeated {Piece : List TokenKind → Prop}
    (present : ∀ {piece}, Piece piece → TokenKind.missing ∉ piece)
    {kinds : List TokenKind} (derived : Repeated Piece kinds) :
    TokenKind.missing ∉ kinds := by
  induction derived with
  | nil => simp
  | cons piece _ inductionHypothesis =>
      simp [present piece, inductionHypothesis]

theorem missing_notMem_item {kinds : List TokenKind} (item : Item kinds) :
    TokenKind.missing ∉ kinds := by
  cases item <;> simp

theorem missing_notMem_member {kinds : List TokenKind}
    (member : Member kinds) : TokenKind.missing ∉ kinds := by
  cases member <;> simp

theorem missing_notMem_value {kinds : List TokenKind} (value : Value kinds) :
    TokenKind.missing ∉ kinds := by
  cases value with
  | string => simp
  | array items =>
      simp [missing_notMem_of_repeated missing_notMem_item items]
  | object members =>
      simp [missing_notMem_of_repeated missing_notMem_member members]

theorem missing_notMem_property {kinds : List TokenKind}
    (property : Property kinds) : TokenKind.missing ∉ kinds := by
  cases property with
  | @definition key _ keyword value =>
      have keyPresent : key ≠ .missing := by
        rintro rfl
        revert keyword
        decide
      simp [keyPresent.symm, missing_notMem_value value]

theorem missing_notMem_statement {kinds : List TokenKind}
    (statement : Statement kinds) : TokenKind.missing ∉ kinds := by
  cases statement with
  | version => simp
  | block kind properties =>
      cases kind <;>
        simp [BlockKind.keyword,
          missing_notMem_of_repeated missing_notMem_property properties]

theorem missing_notMem_document {kinds : List TokenKind}
    (document : Document kinds) : TokenKind.missing ∉ kinds :=
  missing_notMem_of_repeated missing_notMem_statement document

theorem append_document {first second : List TokenKind}
    (before : Document first) (after : Document second) :
    Document (first ++ second) := by
  induction before with
  | nil => exact after
  | cons piece _ inductionHypothesis =>
      rw [List.append_assoc]
      exact .cons piece inductionHypothesis

end Grammar

namespace Token

/-- The kinds of some tokens. -/
def kindsOf (tokens : List Token) : List TokenKind :=
  tokens.map Token.kind

@[simp] theorem kindsOf_nil : kindsOf [] = [] := rfl

@[simp] theorem kindsOf_cons (token : Token) (tokens : List Token) :
    kindsOf (token :: tokens) = token.kind :: kindsOf tokens := rfl

@[simp] theorem kindsOf_append (first second : List Token) :
    kindsOf (first ++ second) = kindsOf first ++ kindsOf second :=
  List.map_append

end Token

namespace Parse

/-- The tokens the grammar sees. -/
def grammatical (tokens : List Token) : List Token :=
  tokens.filter fun token => !token.kind.isTrivia

end Parse

end WorkflowLang
