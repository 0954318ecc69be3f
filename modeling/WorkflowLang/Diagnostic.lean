import WorkflowLang.Token
import WorkflowLang.Text.Escape

/-!
# Diagnostics

A diagnostic is a problem at a place.  Problems are recorded as causes with the
data their wording needs; `Problem.message` is the one place that words them.
Their numbers are stable and grouped by the stage that finds them: scanning up
to three, parsing up to five, binding up to fifteen, checks from sixteen on.
-/

namespace WorkflowLang

/-- The largest version of the language that is understood. -/
def maximumVersion : Nat := 0

def maximumActions : Nat := 100

def maximumSecrets : Nat := 100

inductive Severity where
  | error
  | warning
  deriving DecidableEq, Inhabited, Repr

def Severity.label : Severity → String
  | .error => "error"
  | .warning => "warning"

inductive Problem where
  | unrecognizedCharacter (character : Char)
  | unterminatedString
  | unsupportedEscape (character : Char)
  | missingToken (expected : List TokenKind) (atEnd : Bool)
  | unexpectedToken (kind : TokenKind)
  | multipleVersions
  | unrecognizedVersion (text : String)
  | versionAfterBlock
  | valueIsNotString
  | valueIsNotStringOrArray
  | valueIsNotObject
  | propertyAlreadyDefined (property : String)
  | propertyMustBeDefined (property : TokenKind) (block : BlockKind)
  | invalidProperty (property : String) (block : BlockKind)
  | duplicateKey (key : String)
  | tooManyActions
  | duplicateBlock (name : String)
  | circularDependency (action : String)
  | actionDoesNotExist (action : String)
  | tooManySecrets
  | duplicateSecrets (secret : String)
  | duplicateActions (action : String)
  | reservedEnvironmentVariable
  | unrecognizedEvent (event : String)
  | invalidUses
  deriving DecidableEq, Inhabited, Repr

namespace Problem

/-- The stable number of a problem. -/
def code : Problem → Nat
  | .unrecognizedCharacter _ => 1
  | .unterminatedString => 2
  | .unsupportedEscape _ => 3
  | .missingToken _ _ => 4
  | .unexpectedToken _ => 5
  | .multipleVersions => 6
  | .unrecognizedVersion _ => 7
  | .versionAfterBlock => 8
  | .valueIsNotString => 9
  | .valueIsNotStringOrArray => 10
  | .valueIsNotObject => 11
  | .propertyAlreadyDefined _ => 12
  | .propertyMustBeDefined _ _ => 13
  | .invalidProperty _ _ => 14
  | .duplicateKey _ => 15
  | .tooManyActions => 16
  | .duplicateBlock _ => 17
  | .circularDependency _ => 18
  | .actionDoesNotExist _ => 19
  | .tooManySecrets => 20
  | .duplicateSecrets _ => 21
  | .duplicateActions _ => 22
  | .reservedEnvironmentVariable => 23
  | .unrecognizedEvent _ => 24
  | .invalidUses => 25

/-- Problems of scanning and parsing, after which parts of the source are
missing from the syntax tree. -/
def isSyntaxError (problem : Problem) : Bool :=
  problem.code < 6

/-- Redundant list entries are harmless; everything else is an error. -/
def severity : Problem → Severity
  | .duplicateActions _ => .warning
  | .duplicateSecrets _ => .warning
  | _ => .error

/-- The letter `E` and the number of a problem, with at least three digits. -/
def label (problem : Problem) : String :=
  let digits := toString problem.code
  "E" ++ String.ofList (List.replicate (3 - digits.length) '0') ++ digits

/-- The kinds that would have been accepted, each in quotes. -/
def alternatives (expected : List TokenKind) : String :=
  " or ".intercalate
    (expected.map fun kind => "'" ++ kind.description ++ "'")

def message : Problem → String
  | .unrecognizedCharacter character =>
      "The character '" ++ String.ofList (Text.escape character) ++
        "' is unrecognizable."
  | .unterminatedString =>
      "This string literal must end with double quotes."
  | .unsupportedEscape character =>
      "The character '" ++ String.ofList (Text.escape character) ++
        "' is not a supported escape sequence."
  | .missingToken expected atEnd =>
      "A token of kind " ++ alternatives expected ++ " was expected " ++
        (if atEnd then "after this" else "here") ++ "."
  | .unexpectedToken kind =>
      "A token of kind '" ++ kind.description ++ "' was not expected here."
  | .multipleVersions =>
      "A version is already specified for this document. " ++
        "You can only specify one."
  | .unrecognizedVersion text =>
      "The version '" ++ text ++ "' is not valid. Only versions up to '" ++
        toString maximumVersion ++ "' are supported."
  | .versionAfterBlock =>
      "Version must be specified before all actions or workflows are defined."
  | .valueIsNotString => "Value must be a single string."
  | .valueIsNotStringOrArray =>
      "Value must be a single string or an array of strings."
  | .valueIsNotObject => "Value must be an object."
  | .propertyAlreadyDefined property =>
      "A property '" ++ property ++ "' is already defined in this block."
  | .propertyMustBeDefined property block =>
      "This '" ++ block.keyword.description ++ "' must define a '" ++
        property.description ++ "' property."
  | .invalidProperty property block =>
      "A property of kind '" ++ property ++ "' cannot be defined for a '" ++
        block.keyword.description ++ "' block."
  | .duplicateKey key =>
      "A key with the name '" ++ key ++ "' is already defined."
  | .tooManyActions =>
      "Too many actions defined. The maximum currently supported is '" ++
        toString maximumActions ++ "'."
  | .duplicateBlock name =>
      "This file already defines another workflow or action with the name '" ++
        name ++ "'."
  | .circularDependency action =>
      "The action '" ++ action ++ "' has a circular dependency on itself."
  | .actionDoesNotExist action =>
      "The action '" ++ action ++
        "' does not exist in the same workflow file."
  | .tooManySecrets =>
      "Too many secrets defined. The maximum currently supported is '" ++
        toString maximumSecrets ++ "'."
  | .duplicateSecrets secret =>
      "This property has duplicate '" ++ secret ++ "' secrets."
  | .duplicateActions action =>
      "This property has duplicate '" ++ action ++ "' actions."
  | .reservedEnvironmentVariable =>
      "Environment variables starting with 'GITHUB_' are reserved."
  | .unrecognizedEvent event =>
      "The event '" ++ event ++ "' is not a known event type."
  | .invalidUses =>
      "The 'uses' property must be a path, a Docker image, " ++
        "or an owner/repo@ref remote."

end Problem

structure Diagnostic where
  problem : Problem
  span : Span
  deriving DecidableEq, Inhabited, Repr

/-- The one-line form of a diagnostic: severity, number and wording. -/
def Diagnostic.display (diagnostic : Diagnostic) : String :=
  diagnostic.problem.severity.label ++ "[" ++ diagnostic.problem.label ++
    "]: " ++ diagnostic.problem.message

end WorkflowLang
