/-!
# Addresses of what actions use

An action uses one of three things: a path in the same repository (`./path`), a
path in another repository at some revision (`owner/repo/path@ref`), or a
container image (`docker://registry/path:tag` or `…@digest`).  Letters and
digits are those of ASCII.
-/

namespace WorkflowLang
namespace Address

/-- A run of at least one character of a class. -/
def isRun (isPart : Char → Bool) (characters : List Char) : Bool :=
  !characters.isEmpty && characters.all isPart

/-- Runs of letters and digits, joined by single separators. -/
def isJoined (separators : List Char) (characters : List Char) : Bool :=
  (characters.splitOnP separators.contains).all (isRun Char.isAlphanum)

/-- A path in the same repository: anything on one line behind `./`. -/
def isLocal (address : List Char) : Bool :=
  match "./".toList.isPrefixOf? address with
  | none => false
  | some path => !path.contains '\n'

def isNamePart (character : Char) : Bool :=
  character.isAlphanum || ['_', '.', '-'].contains character

/-- An owner, then one or more names, all behind slashes. -/
def isRepositoryPath (path : List Char) : Bool :=
  match path.splitOnP (· == '/') with
  | owner :: name :: names =>
      isJoined ['-'] owner && (name :: names).all (isRun isNamePart)
  | _ => false

/-- A path in a repository, and behind `@` a revision on one line. -/
def isRemote (address : List Char) : Bool :=
  isRepositoryPath (address.takeWhile (· != '@')) &&
    match address.dropWhile (· != '@') with
    | _ :: revision => !revision.isEmpty && !revision.contains '\n'
    | [] => false

/-- A part of a host name: letters, digits and dashes, no dash at either end. -/
def isHostPart (characters : List Char) : Bool :=
  characters.all (fun character => character.isAlphanum || character == '-') &&
    characters.head?.any Char.isAlphanum &&
    characters.getLast?.any Char.isAlphanum

/-- A host name and behind a colon, if there is one, a number. -/
def isRegistry (registry : List Char) : Bool :=
  let host := registry.takeWhile (· != ':')
  let isHost := (host.splitOnP (· == '.')).all isHostPart
  match registry.dropWhile (· != ':') with
  | [] => isHost
  | _ :: number => isHost && isRun Char.isDigit number

def isComponent (component : List Char) : Bool :=
  isJoined ['.', '_', '-'] component

/-- A tag: a letter, digit or underscore, then also dots and dashes. -/
def isTag : List Char → Bool
  | [] => false
  | first :: others =>
      (first.isAlphanum || first == '_') && others.all isNamePart

/-- A part of a digest algorithm's name: a letter, then letters and digits. -/
def isAlgorithmPart : List Char → Bool
  | [] => false
  | first :: others => first.isAlpha && others.all Char.isAlphanum

def isHexDigit (character : Char) : Bool :=
  character.isDigit || "abcdefABCDEF".toList.contains character

/-- A digest: an algorithm, a colon and hexadecimal digits. -/
def isDigest (digest : List Char) : Bool :=
  let algorithm := digest.takeWhile (· != ':')
  (algorithm.splitOnP ['+', '.', '_', '-'].contains).all isAlgorithmPart &&
    match digest.dropWhile (· != ':') with
    | _ :: digits => isRun isHexDigit digits
    | [] => false

def endsPath (character : Char) : Bool :=
  character == ':' || character == '@'

/-- The last component of an image's path, with the tag or digest behind it. -/
def isLastComponent (component : List Char) : Bool :=
  isComponent (component.takeWhile fun character => !endsPath character) &&
    match component.dropWhile fun character => !endsPath character with
    | [] => true
    | mark :: reference =>
        if mark = ':' then isTag reference else isDigest reference

/-- The components of an image's path that follow its first slash. -/
def areLaterComponents : List (List Char) → Bool
  | [] => false
  | [last] => isLastComponent last
  | component :: others =>
      isComponent component && areLaterComponents others

/-- An image: `docker://`, a registry if there is one, and a path. -/
def isImage (address : List Char) : Bool :=
  match "docker://".toList.isPrefixOf? address with
  | none => false
  | some image =>
      match image.splitOnP (· == '/') with
      | [] => false
      | [only] => isLastComponent only
      | first :: others =>
          (isRegistry first || isComponent first) && areLaterComponents others

def isValid (address : String) : Bool :=
  let characters := address.toList
  isLocal characters || isRemote characters || isImage characters

end Address
end WorkflowLang
