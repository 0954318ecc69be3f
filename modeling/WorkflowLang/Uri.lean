import WorkflowLang.Uri.Host
import WorkflowLang.Uri.Path

/-!
# URIs

The URI of a document may be written in several ways.  Reading one brings it into
the form in which it is compared and sent back: the scheme in lower-case letters,
the host in one form, the path without segments that lead nowhere or back, and
everything else percent-encoded where it has to be.

Some schemes are special: they have a host, a backslash is a slash to them, and
their paths are never empty.  The scheme of files is one of them, but the host of
a file may be missing, and its path may begin with a drive.  A drive with a bar
gets a colon in place of it where its segment is the first one.
-/

namespace WorkflowLang

/-- What stands in front of a URI's path. -/
structure Authority where
  /-- The name of a user and a password, up to the at sign. -/
  userInfo : String
  host : Host
  /-- The number of a service of the host. -/
  service : Option Nat
  deriving DecidableEq, Inhabited, Repr

structure Uri where
  scheme : String
  authority : Option Authority
  path : String
  query : Option String
  fragment : Option String
  deriving DecidableEq, Inhabited, Repr

def Authority.text (authority : Authority) : String :=
  "//" ++ authority.userInfo ++ authority.host.text ++
    ((authority.service.map fun number => ":" ++ toString number).getD "")

namespace Uri

/-- The way to write a URI.  A path without an authority must not look as if it
had one. -/
def text (uri : Uri) : String :=
  let front :=
    match uri.authority with
    | some authority => authority.text
    | none =>
        if "//".toList.isPrefixOf uri.path.toList then "/." else ""
  uri.scheme ++ ":" ++ front ++ uri.path ++
    ((uri.query.map ("?" ++ ·)).getD "") ++
    ((uri.fragment.map ("#" ++ ·)).getD "")

def fileScheme : String := "file"

/-- The special schemes, with the number of a service that need not be
written. -/
def specialSchemes : List (String × Option Nat) :=
  [("http", some 80), ("https", some 443), ("ws", some 80), ("wss", some 443),
    ("ftp", some 21), (fileScheme, none)]

def isSpecial (scheme : String) : Bool :=
  (specialSchemes.lookup scheme).isSome

/-- The number of a service that need not be written. -/
def usualService? (scheme : String) : Option Nat :=
  (specialSchemes.lookup scheme).join

def isSeparator (scheme : String) (character : Char) : Bool :=
  character == '/' || (isSpecial scheme && character == '\\')

def endsPath (character : Char) : Bool :=
  character == '?' || character == '#'

/-- ASCII characters without a place in a user's name and password. -/
def misplacedInUserInfo : List Char :=
  UriPath.misplaced ++ "/:;=@[\\]^|".toList

/-- ASCII characters without a place in a query. -/
def misplacedInQuery (scheme : String) : List Char :=
  " \"#<>".toList ++ if isSpecial scheme then ['\''] else []

/-- ASCII characters without a place in a fragment. -/
def misplacedInFragment : List Char := " \"<>`".toList

/-- A user's name and password up to the at sign; nothing if both are empty. -/
def userInfo (text : List Char) : String :=
  let name := text.takeWhile (· != ':')
  let password := (text.dropWhile (· != ':')).drop 1
  let encode (part : List Char) : List Char :=
    Percent.encode misplacedInUserInfo part
  if name.isEmpty && password.isEmpty then ""
  else
    String.ofList (encode name ++
      (if password.isEmpty then [] else ':' :: encode password) ++ ['@'])

/-- The text up to the last at sign, if there is one, and the text behind it. -/
def splitUserInfo (text : List Char) : Option (List Char) × List Char :=
  if text.contains '@' then
    let behind := (text.reverse.takeWhile (· != '@')).reverse
    (some (text.take (text.length - behind.length - 1)), behind)
  else (none, text)

/-- How far it is to the colon in front of the number of a service.  Colons
between brackets belong to the host. -/
def hostLength (isBracketed : Bool) : List Char → Nat
  | [] => 0
  | character :: rest =>
      if character = ':' ∧ !isBracketed then 0
      else
        1 + hostLength
          (if character = '[' then true
            else if character = ']' then false else isBracketed)
          rest

/-- Reads the number of a service, and gives what follows it.  The usual number
and an empty one count as none. -/
def readService (scheme : String) (text : List Char) :
    Except UriError (Option Nat × List Char) :=
  let digits := text.takeWhile Char.isDigit
  let rest := text.dropWhile Char.isDigit
  let number := Text.decimalValue 0 digits
  if UInt16.size ≤ number || rest.head?.any (· != '\\') then
    .error .invalidService
  else if digits.isEmpty || usualService? scheme = some number then
    .ok (none, rest)
  else .ok (some number, rest)

/-- Reads the authority of a URI that does not name a file.  Gives what is left
of the text, which belongs to the path.  A lone at sign is an authority only at
the end of a URI. -/
def readAuthority (scheme : String) (text : List Char) (isLast : Bool) :
    Except UriError (Authority × List Char) := do
  let (user, location) := splitUserInfo text
  let hostText := location.take (hostLength false location)
  let serviceText := location.drop hostText.length
  let info := userInfo (user.getD [])
  if hostText.isEmpty &&
      (isSpecial scheme || !serviceText.isEmpty || !info.isEmpty ||
        (user == some [] && !isLast)) then
    .error .emptyHost
  else
    let host ←
      if isSpecial scheme then Host.ofDomain hostText else Host.ofText hostText
    let (service, rest) ← readService scheme (serviceText.drop 1)
    return (⟨info, host, service⟩, rest)

/-- What a scheme and a path make up with the query and the fragment behind
it. -/
def withEnding (scheme : String) (authority : Option Authority) (path : String)
    (ending : List Char) : Uri :=
  let queryText := ending.takeWhile (· != '#')
  let fragmentText := ending.dropWhile (· != '#')
  { scheme := scheme
    authority := authority
    path := path
    query :=
      match queryText with
      | [] => none
      | _ :: query =>
          some (String.ofList (Percent.encode (misplacedInQuery scheme) query))
    fragment :=
      match fragmentText with
      | [] => none
      | _ :: fragment =>
          some (String.ofList (Percent.encode misplacedInFragment fragment)) }

/-- Reads what follows the scheme of a file.  Behind two slashes and no host the
empty text before the path's first slash is a segment too, so a drive behind that
slash is not the first segment and keeps its bar. -/
def ofFile (text : List Char) : Except UriError Uri := do
  let body := text.takeWhile (!endsPath ·)
  let ending := text.dropWhile (!endsPath ·)
  let isSlash := isSeparator fileScheme
  let finish (host : Host) (path : List Char) : Uri :=
    let segments := UriPath.ofText true isSlash path
    let host := if UriPath.startsWithDrive segments then .missing else host
    withEnding fileScheme (some ⟨"", host, none⟩)
      (UriPath.render (UriPath.withoutEmptyStart segments)) ending
  match body with
  | first :: second :: rest =>
      if isSlash first && isSlash second then
        let hostText := rest.takeWhile (!isSlash ·)
        if UriPath.isDrive hostText then return finish .missing rest
        else
          let host ←
            if hostText.isEmpty then .ok .missing else Host.ofDomain hostText
          let path := rest.dropWhile (!isSlash ·)
          return if host = .missing ∨ host = .name "localhost" then
              finish .missing path
            else finish host (path.drop 1)
      else if isSlash first then return finish .missing (second :: rest)
      else return finish .missing body
  | [first] =>
      return finish .missing (if isSlash first then [] else body)
  | [] => return finish .missing []

/-- Reads what follows the two slashes of a URI that does not name a file. -/
def ofAuthority (scheme : String) (text : List Char) :
    Except UriError Uri := do
  let isEnd (character : Char) : Bool :=
    isSeparator scheme character || endsPath character
  let after := text.dropWhile (!isEnd ·)
  let (found, rest) ←
    readAuthority scheme (text.takeWhile (!isEnd ·)) after.isEmpty
  let behind := rest ++ after
  let body := behind.takeWhile (!endsPath ·)
  let path :=
    if body.isEmpty && !isSpecial scheme then ""
    else
      UriPath.render (UriPath.ofText false (isSeparator scheme)
        (if body.head?.any (isSeparator scheme) then body.drop 1 else body))
  return withEnding scheme (some found) path (behind.dropWhile (!endsPath ·))

/-- Reads what follows the scheme of a URI without an authority. -/
def ofPath (scheme : String) (text : List Char) : Uri :=
  let body := text.takeWhile (!endsPath ·)
  let path :=
    match body with
    | '/' :: rest =>
        UriPath.render (UriPath.ofText false (isSeparator scheme) rest)
    | _ => String.ofList (Percent.encode [] body)
  withEnding scheme none path (text.dropWhile (!endsPath ·))

def isSchemePart (character : Char) : Bool :=
  character.isAlphanum || "+-.".toList.contains character

/-- The scheme of a text in lower-case letters, and what follows its colon. -/
def splitScheme? (text : List Char) : Option (String × List Char) :=
  let scheme := text.takeWhile isSchemePart
  match text.dropWhile isSchemePart with
  | ':' :: rest =>
      if scheme.head?.any Char.isAlpha then
        some (String.ofList (scheme.map Char.toLower), rest)
      else none
  | _ => none

/-- A text without controls and spaces around it, and without tabs and line
breaks inside. -/
def trim (text : List Char) : List Char :=
  let isOuter (character : Char) : Bool := character ≤ ' '
  (((text.dropWhile isOuter).reverse.dropWhile isOuter).reverse).filter
    fun character => !"\t\n\r".toList.contains character

def parse (text : String) : Except UriError Uri :=
  match splitScheme? (trim text.toList) with
  | none => .error .noScheme
  | some (scheme, rest) =>
      if scheme = fileScheme then ofFile rest
      else if isSpecial scheme then
        ofAuthority scheme (rest.dropWhile (isSeparator scheme))
      else
        match rest with
        | '/' :: '/' :: behind => ofAuthority scheme behind
        | _ => .ok (ofPath scheme rest)

end Uri
end WorkflowLang
