import WorkflowLang.Uri.PercentEncoding

/-!
# Paths of URIs

A path is a list of segments with slashes between them.  A segment of one point
leads nowhere and one of two points leads out of the segment before it, so a path
can be written without them.  A segment such as `C:` names a drive, which nothing
leads out of.
-/

namespace WorkflowLang
namespace UriPath

/-- ASCII characters without a place in a path. -/
def misplaced : List Char := " \"<>`#?".toList ++ [Char.ofNat 0x7b, Char.ofNat 0x7d]

/-- A segment that leads nowhere.  A point may be percent-encoded. -/
def isPoint (segment : List Char) : Bool :=
  [".", "%2e"].contains (String.ofList (segment.map Char.toLower))

/-- A segment that leads out of the one before it. -/
def isParent (segment : List Char) : Bool :=
  ["..", ".%2e", "%2e.", "%2e%2e"].contains
    (String.ofList (segment.map Char.toLower))

/-- A letter with a colon or a bar. -/
def isDrive : List Char → Bool
  | [letter, mark] => letter.isAlpha && (mark == ':' || mark == '|')
  | _ => false

def beginsWithDrive (segment : List Char) : Bool :=
  isDrive (segment.take 2) && (segment.drop 2).head?.all (· == '\\')

def withColon (drive : List Char) : List Char := drive.take 1 ++ [':']

/-- The segments after one more, the last one first.  A file's path that begins
with a drive has a colon there. -/
def add (isFile : Bool) (passed : List (List Char)) (segment : List Char) :
    List (List Char) :=
  if isParent segment then
    match passed with
    | [] => []
    | last :: others => if beginsWithDrive last then passed else others
  else if isPoint segment then passed
  else if isFile && passed.isEmpty && isDrive segment then [withColon segment]
  else segment :: passed

/-- The segments of a path without those that lead nowhere or back. -/
def resolve (isFile : Bool) (segments : List (List Char)) :
    List (List Char) :=
  let resolved := (segments.foldl (add isFile) []).reverse
  match segments.getLast? with
  | none => [[]]
  | some last =>
      if isParent last || isPoint last then resolved ++ [[]] else resolved

/-- The segments of a text behind the first slash of a path. -/
def ofText (isFile : Bool) (isSeparator : Char → Bool) (text : List Char) :
    List (List Char) :=
  resolve isFile ((text.splitOnP isSeparator).map (Percent.encode misplaced))

def withoutEmptyStart : List (List Char) → List (List Char)
  | [] :: segment :: rest => withoutEmptyStart (segment :: rest)
  | segments => segments

def startsWithDrive (segments : List (List Char)) : Bool :=
  segments.head?.any isDrive

def render (segments : List (List Char)) : String :=
  String.ofList ('/' :: ['/'].intercalate segments)

end UriPath
end WorkflowLang
