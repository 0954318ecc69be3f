import WorkflowLang.Files.FileTree

/-!
# Places of files

A path leads to a place, whatever the files hold.  So a tree can be read place by
place: what reading a path gives is what its place holds (`FileTree.read_eq`), and
giving a file a new text changes what its own place holds, no other one
(`FileTree.contentAt_insert`), and where no path leads (`FileTree.place_insert`).
-/

namespace WorkflowLang

namespace FileNode

theorem lookup_append (node : FileNode) (place names : List String) :
    node.lookup (place ++ names) =
      (node.lookup place).bind fun inner => inner.lookup names := by
  induction place generalizing node with
  | nil => rfl
  | cons name others inductionHypothesis =>
      simp only [List.cons_append, lookup]
      cases node.entries.lookup name with
      | none => rfl
      | some child => exact inductionHypothesis child

theorem lookup_singleton (node : FileNode) (name : String) :
    node.lookup [name] = node.entries.lookup name := by
  simp only [lookup]
  cases node.entries.lookup name with
  | none => rfl
  | some child => rfl

/-- Nothing is below a file. -/
theorem lookup_cons_of_file {node : FileNode} (isFile : node.kind = .file)
    (name : String) (names : List String) :
    node.lookup (name :: names) = none := by
  cases node with
  | directory entries => contradiction
  | text content => rfl
  | bytes => rfl

theorem kind_eq_directory_iff {node : FileNode} :
    node.kind = .directory ↔ ∃ entries, node = .directory entries := by
  cases node <;> simp [kind]

/-- What has something below it is a directory. -/
theorem kind_of_lookup_append {node deep : FileNode} {place : List String}
    {name : String} {names : List String}
    (found : node.lookup (place ++ name :: names) = some deep) :
    (node.lookup place).map kind = some .directory := by
  rw [lookup_append] at found
  obtain ⟨inner, isInner, below⟩ := Option.bind_eq_some_iff.mp found
  rw [isInner, Option.map_some]
  cases kindEq : inner.kind with
  | directory => rfl
  | file =>
      rw [lookup_cons_of_file kindEq] at below
      contradiction

/-- A file that takes the place of another one changes that place only.  The
directories around it have a new entry, but are directories still. -/
theorem lookup_insert_file {node old added : FileNode} {place other : List String}
    (found : node.lookup place = some old) (wasFile : old.kind = .file)
    (isFile : added.kind = .file) (differs : other ≠ place) :
    (node.insert added place).lookup other = node.lookup other ∨
      ((node.insert added place).lookup other).map kind = some .directory ∧
        (node.lookup other).map kind = some .directory := by
  have foundAdded := lookup_insert_self node added place
  by_cases around : other <+: place
  · obtain ⟨names, rfl⟩ := around
    cases names with
    | nil => simp at differs
    | cons name names =>
        exact Or.inr
          ⟨kind_of_lookup_append foundAdded, kind_of_lookup_append found⟩
  · refine Or.inl ?_
    by_cases inside : place <+: other
    · obtain ⟨names, rfl⟩ := inside
      cases names with
      | nil => simp at differs
      | cons name names =>
          rw [lookup_append, lookup_append, foundAdded, found,
            Option.bind_some, Option.bind_some, lookup_cons_of_file isFile,
            lookup_cons_of_file wasFile]
    · exact lookup_insert_of_beside node added place other around inside

end FileNode

/-- The nodes on a way are those that a tree has at the places it passes. -/
def FileWay.LeadsIn (root : FileNode) : FileWay → Prop
  | [] => True
  | (name, node) :: outer =>
      node = root.lookup (FileWay.place ((name, node) :: outer)) ∧
        LeadsIn root outer

@[simp] theorem FileWay.place_nil : FileWay.place [] = [] := rfl

@[simp] theorem FileWay.place_cons (name : String) (node : Option FileNode)
    (outer : FileWay) :
    FileWay.place ((name, node) :: outer) = outer.place ++ [name] := by
  simp [place]

theorem FileWay.place_tail (way : FileWay) :
    FileWay.place way.tail = way.place.dropLast := by
  cases way with
  | nil => rfl
  | cons step outer =>
      rw [List.tail_cons, place_cons, List.dropLast_concat]

theorem FileWay.LeadsIn.tail {root : FileNode} {way : FileWay}
    (leads : way.LeadsIn root) : FileWay.LeadsIn root way.tail := by
  cases way with
  | nil => trivial
  | cons step outer => exact leads.2

namespace FileTree

/-- What reading gives for whatever is at a place. -/
def contentAt (tree : FileTree) (place : List String) :
    Except FileError String :=
  match tree.root.lookup place with
  | some (.text content) => .ok content
  | some .bytes => .error .invalidText
  | some (.directory _) => .error .isADirectory
  | none => .error .notFound

def kindAt (tree : FileTree) (place : List String) : Option FileKind :=
  (tree.root.lookup place).map FileNode.kind

/-- The place that a path leads to.  Nothing has to be there. -/
def place (tree : FileTree) (path : String) : Except FileError (List String) :=
  (tree.way path).map FileWay.place

variable {tree : FileTree}

theorem destination_eq {way : FileWay} (leads : way.LeadsIn tree.root) :
    tree.destination way = tree.root.lookup way.place := by
  cases way with
  | nil => rfl
  | cons step outer => exact leads.1

/-- A name behind a way to a directory leads to what the directory has under
it. -/
theorem leadsIn_cons {way : FileWay} (leads : way.LeadsIn tree.root)
    {entries : List (String × FileNode)}
    (isDirectory : tree.destination way = some (.directory entries))
    (name : String) :
    FileWay.LeadsIn tree.root ((name, entries.lookup name) :: way) := by
  rw [destination_eq leads] at isDirectory
  refine ⟨?_, leads⟩
  rw [FileWay.place_cons, FileNode.lookup_append, isDirectory,
    Option.bind_some, FileNode.lookup_singleton, FileNode.entries_directory]

theorem leadsIn_of_follow {way found : FileWay} {parts : List String}
    (leads : way.LeadsIn tree.root)
    (follows : tree.follow way parts = .ok found) :
    found.LeadsIn tree.root := by
  fun_induction follow tree way parts with
  | case1 way =>
      obtain rfl := Except.ok.inj follows
      exact leads
  | case2 => contradiction
  | case3 way rest entries isDirectory inductionHypothesis =>
      exact inductionHypothesis leads follows
  | case4 way rest entries isDirectory _ inductionHypothesis =>
      exact inductionHypothesis leads.tail follows
  | case5 => contradiction
  | case6 way part rest entries isDirectory _ _ _ inductionHypothesis =>
      exact inductionHypothesis (leadsIn_cons leads isDirectory part) follows
  | case7 => contradiction

/-- A path is refused for its text alone, or it is followed from the root. -/
theorem way_eq (workingDirectory : List String) (path : String) :
    (∃ cause, ∀ tree : FileTree, tree.workingDirectory = workingDirectory →
        tree.way path = .error cause) ∨
      ∃ parts, ∀ tree : FileTree, tree.workingDirectory = workingDirectory →
        tree.way path = tree.follow [] parts := by
  by_cases hasNull : path.toList.contains (Char.ofNat 0) = true
  · exact Or.inl ⟨.nullInPath, fun tree _ => if_pos hasNull⟩
  by_cases empty : path.isEmpty = true
  · exact Or.inl ⟨.notFound, fun tree _ => by
      rw [way, if_neg hasNull, if_pos empty]⟩
  by_cases long : pathSizeBound ≤ path.utf8ByteSize
  · exact Or.inl ⟨.nameTooLong, fun tree _ => by
      rw [way, if_neg hasNull, if_neg empty, if_pos long]⟩
  · refine Or.inr
      ⟨(if Path.isAbsolute path then [] else workingDirectory) ++
        Path.parts path ++
          (if path.toList.getLast? = some '/' then ["."] else []),
        fun tree here => ?_⟩
    rw [way, if_neg hasNull, if_neg empty, if_neg long, here]

theorem leadsIn_of_way {path : String} {way : FileWay}
    (leads : tree.way path = .ok way) : way.LeadsIn tree.root := by
  rcases way_eq tree.workingDirectory path with
    ⟨cause, refused⟩ | ⟨parts, follows⟩
  · rw [refused tree rfl] at leads
    contradiction
  · rw [follows tree rfl] at leads
    have start : FileWay.LeadsIn tree.root [] := trivial
    exact leadsIn_of_follow start leads

/-- Reading a path gives what its place holds. -/
theorem read_eq (tree : FileTree) (path : String) :
    tree.read path = (tree.place path).bind tree.contentAt := by
  rw [read, find, place, bind, Except.instMonad]
  cases led : tree.way path with
  | error cause => rfl
  | ok way =>
      simp only [Except.map, Except.bind, contentAt,
        destination_eq (leadsIn_of_way led)]
      cases tree.root.lookup way.place with
      | none => rfl
      | some node => cases node <;> rfl

theorem read_eq_ok {path text : String} :
    tree.read path = .ok text ↔
      ∃ place, tree.place path = .ok place ∧
        tree.contentAt place = .ok text := by
  rw [read_eq]
  cases tree.place path with
  | error cause => simp [Except.bind]
  | ok place => simp [Except.bind]

theorem contentAt_eq_ok {place : List String} {text : String} :
    tree.contentAt place = .ok text ↔
      tree.root.lookup place = some (.text text) := by
  unfold contentAt
  split <;> simp_all

/-- A file that can be read can be written. -/
theorem write_of_content {path text : String} {place : List String}
    (leads : tree.place path = .ok place)
    (holds : tree.contentAt place = .ok text) (content : String) :
    tree.write path content = .ok (tree.insert place (.text content)) := by
  unfold FileTree.place at leads
  cases led : tree.way path with
  | error cause => simp [led, Except.map] at leads
  | ok way =>
      obtain rfl : way.place = place := by
        simpa [led, Except.map] using leads
      have isText : tree.destination way = some (.text text) :=
        (destination_eq (leadsIn_of_way led)).trans (contentAt_eq_ok.mp holds)
      simp [write, led, isText, bind, Except.bind]

/-- The files of two trees are at the same places, and the paths begin at the same
working directory. -/
structure SameKinds (first second : FileTree) : Prop where
  workingDirectory : first.workingDirectory = second.workingDirectory
  kindAt : ∀ place, first.kindAt place = second.kindAt place

theorem kindAt_place {way : FileWay} (leads : way.LeadsIn tree.root) :
    tree.kindAt way.place = (tree.destination way).map FileNode.kind := by
  rw [kindAt, destination_eq leads]

/-- Where the nodes are of the same kinds, parts lead to the same place. -/
theorem SameKinds.follow_eq {first second : FileTree}
    (same : first.SameKinds second) {way other : FileWay}
    (leads : way.LeadsIn first.root) (otherLeads : other.LeadsIn second.root)
    (samePlace : way.place = other.place) (parts : List String) :
    (first.follow way parts).map FileWay.place =
      (second.follow other parts).map FileWay.place := by
  induction parts generalizing way other with
  | nil => simp [follow, Except.map, samePlace]
  | cons part rest inductionHypothesis =>
      have kinds : (first.destination way).map FileNode.kind =
          (second.destination other).map FileNode.kind := by
        rw [← kindAt_place leads, ← kindAt_place otherLeads, samePlace,
          same.kindAt]
      unfold follow
      cases found : first.destination way with
      | none =>
          rw [found] at kinds
          rw [Option.map_eq_none_iff.mp kinds.symm]
      | some node =>
          rw [found] at kinds
          obtain ⟨otherNode, foundOther, kindOther⟩ :=
            Option.map_eq_some_iff.mp kinds.symm
          rw [foundOther]
          cases node with
          | directory entries =>
              obtain ⟨otherEntries, rfl⟩ :=
                FileNode.kind_eq_directory_iff.mp kindOther
              simp only
              split
              · exact inductionHypothesis leads otherLeads samePlace
              · split
                · refine inductionHypothesis leads.tail otherLeads.tail ?_
                  rw [FileWay.place_tail, FileWay.place_tail, samePlace]
                · split
                  · rfl
                  · exact inductionHypothesis (leadsIn_cons leads found part)
                      (leadsIn_cons otherLeads foundOther part)
                      (by simp [samePlace])
          | text content => cases otherNode <;> first | rfl | contradiction
          | bytes => cases otherNode <;> first | rfl | contradiction

/-- Paths lead to the same places, whatever the files hold. -/
theorem SameKinds.place_eq {first second : FileTree}
    (same : first.SameKinds second) (path : String) :
    first.place path = second.place path := by
  unfold place
  rcases way_eq second.workingDirectory path with
    ⟨cause, refused⟩ | ⟨parts, follows⟩
  · rw [refused first same.workingDirectory, refused second rfl]
  · rw [follows first same.workingDirectory, follows second rfl]
    have start (root : FileNode) : FileWay.LeadsIn root [] := trivial
    exact same.follow_eq (start first.root) (start second.root) rfl parts

section

variable {place : List String} {old : String}

theorem lookup_insert_text (holds : tree.contentAt place = .ok old)
    (content : String) {other : List String} (differs : other ≠ place) :
    (tree.insert place (.text content)).root.lookup other =
        tree.root.lookup other ∨
      ((tree.insert place (.text content)).kindAt other = some .directory ∧
        tree.kindAt other = some .directory) :=
  FileNode.lookup_insert_file (contentAt_eq_ok.mp holds) rfl rfl differs

theorem contentAt_of_kindAt (isDirectory : tree.kindAt place = some .directory) :
    tree.contentAt place = .error .isADirectory := by
  obtain ⟨node, found, kind⟩ := Option.map_eq_some_iff.mp isDirectory
  obtain ⟨entries, rfl⟩ := FileNode.kind_eq_directory_iff.mp kind
  rw [contentAt, found]

/-- A new text changes what its own place holds, and no other one. -/
theorem contentAt_insert (holds : tree.contentAt place = .ok old)
    (content : String) (other : List String) :
    (tree.insert place (.text content)).contentAt other =
      if other = place then .ok content else tree.contentAt other := by
  split
  · next here =>
    subst here
    exact contentAt_eq_ok.mpr (FileNode.lookup_insert_self _ _ _)
  · next differs =>
    rcases lookup_insert_text holds content differs with same | directories
    · simp only [contentAt, same]
    · rw [contentAt_of_kindAt directories.1, contentAt_of_kindAt directories.2]

theorem sameKinds_insert (holds : tree.contentAt place = .ok old)
    (content : String) :
    (tree.insert place (.text content)).SameKinds tree where
  workingDirectory := rfl
  kindAt other := by
    by_cases here : other = place
    · subst here
      rw [kindAt, kindAt, insert, FileNode.lookup_insert_self,
        contentAt_eq_ok.mp holds]
      rfl
    · rcases lookup_insert_text holds content here with same | directories
      · simp only [kindAt, same]
      · rw [directories.1, directories.2]

/-- A new text changes nothing about where paths lead. -/
theorem place_insert (holds : tree.contentAt place = .ok old)
    (content path : String) :
    (tree.insert place (.text content)).place path = tree.place path :=
  (sameKinds_insert holds content).place_eq path

end

end FileTree
end WorkflowLang
