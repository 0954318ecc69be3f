import WorkflowLang.Files

/-!
# Trees of files

A tree of files as a value.  Paths lead from its root or from its working
directory, through directories only.  Putting a file somewhere changes the place
that its path leads to (`FileNode.lookup_insert_self`) and no place beside it
(`FileNode.lookup_insert_of_beside`).
-/

namespace WorkflowLang

/-- A file, or a directory with everything below it. -/
inductive FileNode where
  | directory (entries : List (String × FileNode))
  | text (content : String)
  /-- A file whose bytes are not a text. -/
  | bytes
  deriving Inhabited, Repr

namespace FileNode

def emptyDirectory : FileNode := .directory []

def kind : FileNode → FileKind
  | .directory _ => .directory
  | .text _ | .bytes => .file

/-- The names in a directory with what they name.  A file has none. -/
def entries : FileNode → List (String × FileNode)
  | .directory entries => entries
  | .text _ | .bytes => []

@[simp] theorem entries_directory (entries : List (String × FileNode)) :
    (directory entries).entries = entries := rfl

/-- What the names of a place lead to, one directory deeper with each. -/
def lookup (node : FileNode) : List String → Option FileNode
  | [] => some node
  | name :: names =>
      match node.entries.lookup name with
      | none => none
      | some child => child.lookup names

/-- Puts a node at a place.  Where the place lies inside no directory, there is
one afterwards. -/
def insert (node added : FileNode) : List String → FileNode
  | [] => added
  | name :: names =>
      let child := (node.entries.lookup name).getD emptyDirectory
      .directory ((name, child.insert added names) ::
        node.entries.filter (·.1 != name))

theorem lookup_filter_of_ne (name other : String)
    (entries : List (String × FileNode)) (differs : other ≠ name) :
    (entries.filter (·.1 != name)).lookup other = entries.lookup other := by
  induction entries with
  | nil => rfl
  | cons head rest induction =>
      obtain ⟨key, value⟩ := head
      by_cases isReplaced : key = name
      · have isOther : (other == key) = false := by
          simpa [isReplaced] using differs
        rw [List.lookup_cons, isOther]
        simpa [isReplaced] using induction
      · simp only [List.filter_cons, bne_iff_ne, ne_eq, isReplaced,
          not_false_eq_true, if_true, List.lookup_cons, induction]

/-- A node that was put somewhere is found there. -/
theorem lookup_insert_self (node added : FileNode) (place : List String) :
    (node.insert added place).lookup place = some added := by
  induction place generalizing node with
  | nil => rfl
  | cons name names induction => simp [insert, lookup, induction]

/-- Putting a node somewhere changes nothing at a place that is neither around
it nor inside it. -/
theorem lookup_insert_of_beside (node added : FileNode)
    (place other : List String) (isNotAround : ¬ other <+: place)
    (isNotInside : ¬ place <+: other) :
    (node.insert added place).lookup other = node.lookup other := by
  induction place generalizing node other with
  | nil => exact absurd List.nil_prefix isNotInside
  | cons name names induction =>
      match other with
      | [] => exact absurd List.nil_prefix isNotAround
      | otherName :: otherNames =>
          by_cases isSame : otherName = name
          · subst isSame
            have rest := fun child =>
              induction child otherNames
                (fun around => isNotAround (by simpa using around))
                (fun inside => isNotInside (by simpa using inside))
            cases found : node.entries.lookup otherName with
            | some child => simp [insert, lookup, found, rest]
            | none =>
                have isMissing : emptyDirectory.lookup otherNames = none := by
                  match otherNames with
                  | [] =>
                      exact absurd (by simp) isNotAround
                  | _ :: _ => rfl
                simp [insert, lookup, found, rest, isMissing]
          · have isOther : (otherName == name) = false := by
              simpa using isSame
            simp only [insert, lookup, entries_directory, List.lookup_cons, isOther,
              lookup_filter_of_ne _ _ _ isSame]

/-- The texts below a node, with the places they are at. -/
def texts : FileNode → List (List String × String)
  | .directory entries =>
      entries.attach.flatMap fun ⟨(name, child), _⟩ =>
        child.texts.map fun (place, content) => (name :: place, content)
  | .text content => [([], content)]
  | .bytes => []
decreasing_by
  rename_i isEntry
  have := List.sizeOf_lt_of_mem isEntry
  simp_wf
  simp at this
  omega

end FileNode

/-- A way into a tree: the names it leads along, the last one first, each with
what it leads to. -/
abbrev FileWay := List (String × Option FileNode)

namespace FileWay

def place (way : FileWay) : List String := (way.map (·.1)).reverse

end FileWay

structure FileTree where
  workingDirectory : List String
  root : FileNode
  deriving Inhabited, Repr

namespace FileTree

def insert (tree : FileTree) (place : List String) (added : FileNode) :
    FileTree :=
  { tree with root := tree.root.insert added place }

/-- The length in bytes that no part of a path exceeds. -/
def greatestPartSize : Nat := 255

/-- The length in bytes that no path reaches. -/
def pathSizeBound : Nat := 4096

def destination (tree : FileTree) : FileWay → Option FileNode
  | [] => some tree.root
  | (_, node) :: _ => node

/-- Follows the parts of a path.  Every part but the last has to lead to a
directory; the last one may lead to nothing. -/
def follow (tree : FileTree) (way : FileWay) :
    List String → Except FileError FileWay
  | [] => .ok way
  | part :: rest =>
      match tree.destination way with
      | none => .error .notFound
      | some (.directory entries) =>
          if part = "." then follow tree way rest
          else if part = ".." then follow tree way.tail rest
          else if greatestPartSize < part.utf8ByteSize then
            .error .nameTooLong
          else follow tree ((part, entries.lookup part) :: way) rest
      | some _ => .error .notADirectory

/-- The way that a path describes.  A slash at its end means that it has to lead
to a directory. -/
def way (tree : FileTree) (path : String) : Except FileError FileWay :=
  let finalParts :=
    if path.toList.getLast? = some '/' then ["."] else []
  let start := if Path.isAbsolute path then [] else tree.workingDirectory
  if path.toList.contains (Char.ofNat 0) then .error .nullInPath
  else if path.isEmpty then .error .notFound
  else if pathSizeBound ≤ path.utf8ByteSize then .error .nameTooLong
  else tree.follow [] (start ++ Path.parts path ++ finalParts)

def find (tree : FileTree) (path : String) : Except FileError FileNode := do
  match tree.destination (← tree.way path) with
  | some node => .ok node
  | none => .error .notFound

def read (tree : FileTree) (path : String) : Except FileError String := do
  match ← tree.find path with
  | .text content => .ok content
  | .bytes => .error .invalidText
  | .directory _ => .error .isADirectory

def write (tree : FileTree) (path content : String) :
    Except FileError FileTree := do
  let way ← tree.way path
  match tree.destination way with
  | some (.directory _) => .error .isADirectory
  | _ => .ok (tree.insert way.place (.text content))

def makeDirectory (tree : FileTree) (path : String) :
    Except FileError FileTree := do
  let way ← tree.way path
  match tree.destination way with
  | some _ => .error .alreadyExists
  | none => .ok (tree.insert way.place .emptyDirectory)

/-- Goes on with a changed tree, or with the same one after an error. -/
def update (change : FileTree → Except FileError FileTree) :
    StateM FileTree (Except FileError Unit) := fun tree =>
  match change tree with
  | .ok changed => (.ok (), changed)
  | .error error => (.error error, tree)

instance : FileSystem (StateM FileTree) where
  kind? path := fun tree =>
    (((tree.find path).toOption).map FileNode.kind, tree)
  read path := fun tree => (tree.read path, tree)
  write path content := update fun tree => tree.write path content
  makeDirectory path := update fun tree => tree.makeDirectory path

/-- The texts below a place, with their paths from there. -/
def textsBelow (tree : FileTree) (place : List String) :
    List (String × String) :=
  (((tree.root.lookup place).map FileNode.texts).getD []).map
    fun (inner, content) => (Path.ofParts false inner, content)

end FileTree
end WorkflowLang
