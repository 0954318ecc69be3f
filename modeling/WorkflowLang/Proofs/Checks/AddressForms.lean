import WorkflowLang.Checks.Address
import Mathlib.Computability.Language
import Mathlib.Data.List.TakeWhile

/-!
# The languages of addresses

An address belongs to one of three languages, built from classes of characters by
joining, repeating and choosing.  No text belongs to two of them, and the check
accepts the texts of one line that belong to one (`Address.isValid_iff_existsUnique`).

The check reads an address from mark to mark: it cuts at the first mark, or at all of
them, and looks at the pieces.  This is right because the pieces of a language avoid
the marks between them (`Address.mem_mul_iff_span`, `Address.mem_joined_iff`).
-/

namespace WorkflowLang
namespace Address

open scoped Computability

/-! ## Building languages -/

/-- One of some characters. -/
def oneOf (characters : List Char) : Language Char :=
  {text | ∃ character ∈ characters, text = [character]}

/-- A character of one class, then any number of characters of another. -/
def word (isFirst isLater : Char → Bool) : Language Char :=
  {text | ∃ first others, text = first :: others ∧ isFirst first = true ∧
    ∀ character ∈ others, isLater character = true}

/-- At least one character of a class. -/
def run (isPart : Char → Bool) : Language Char :=
  {text | text ≠ [] ∧ ∀ character ∈ text, isPart character = true}

@[simp] theorem mem_word {isFirst isLater : Char → Bool} {text : List Char} :
    text ∈ word isFirst isLater ↔ ∃ first others, text = first :: others ∧
      isFirst first = true ∧ ∀ character ∈ others, isLater character = true :=
  Iff.rfl

@[simp] theorem mem_run {isPart : Char → Bool} {text : List Char} :
    text ∈ run isPart ↔
      text ≠ [] ∧ ∀ character ∈ text, isPart character = true :=
  Iff.rfl

/-- At least one piece, and single separators between the pieces. -/
def joined (separators : List Char) (piece : Language Char) : Language Char :=
  piece * (oneOf separators * piece)∗

/-- A text itself. -/
def literal (text : String) : Language Char := {text.toList}

/-- Letters, digits and some other characters. -/
def isAlphanumOr (others : List Char) (character : Char) : Bool :=
  character.isAlphanum || others.contains character

/-! ## The three forms -/

def repositoryOwner : Language Char := joined ['-'] (run Char.isAlphanum)

def repositoryName : Language Char := run (isAlphanumOr ['_', '.', '-'])

/-- A part of a host name begins and ends with a letter or digit. -/
def hostPart : Language Char :=
  {text | (∀ character ∈ text, isAlphanumOr ['-'] character = true) ∧
    (∃ first ∈ text.head?, first.isAlphanum = true) ∧
    ∃ last ∈ text.getLast?, last.isAlphanum = true}

@[simp] theorem mem_hostPart {text : List Char} :
    text ∈ hostPart ↔
      (∀ character ∈ text, isAlphanumOr ['-'] character = true) ∧
        (∃ first ∈ text.head?, first.isAlphanum = true) ∧
          ∃ last ∈ text.getLast?, last.isAlphanum = true :=
  Iff.rfl

/-- A host, with a port if there is one. -/
def registry : Language Char :=
  joined ['.'] hostPart * (1 + oneOf [':'] * run Char.isDigit)

def component : Language Char := joined ['.', '_', '-'] (run Char.isAlphanum)

def tag : Language Char :=
  word (isAlphanumOr ['_']) (isAlphanumOr ['_', '.', '-'])

def algorithm : Language Char :=
  joined ['+', '.', '_', '-'] (word Char.isAlpha Char.isAlphanum)

def digest : Language Char :=
  algorithm * (oneOf [':'] * run fun character =>
    character.isDigit || "abcdefABCDEF".toList.contains character)

/-- What may stand behind the path of an image. -/
def reference : Language Char :=
  1 + (oneOf [':'] * tag + oneOf ['@'] * digest)

/-- Anything that is not empty. -/
def revision : Language Char := {text | text ≠ []}

@[simp] theorem mem_revision {text : List Char} :
    text ∈ revision ↔ text ≠ [] :=
  Iff.rfl

/-- What an address leads to. -/
inductive Form where
  | path
  | repository
  | image
  deriving DecidableEq

/-- The addresses of a form. -/
def Form.addresses : Form → Language Char
  | .path => literal "./" * ⊤
  | .repository =>
      repositoryOwner *
        ((oneOf ['/'] * repositoryName) * (oneOf ['/'] * repositoryName)∗) *
          (oneOf ['@'] * revision)
  | .image =>
      literal "docker://" * ((1 + registry * oneOf ['/']) *
        (joined ['/'] component * reference))

/-! ## Languages without a mark -/

/-- No text of a language has one of some marks in it. -/
def Avoids (marks : List Char) (language : Language Char) : Prop :=
  ∀ text ∈ language, ∀ character ∈ text, character ∉ marks

section

variable {marks : List Char} {first second : Language Char}

theorem avoids_one : Avoids marks 1 := by
  intro text member character inside
  rw [(Language.mem_one text).mp member] at inside
  exact absurd inside List.not_mem_nil

theorem Avoids.add (avoidsFirst : Avoids marks first)
    (avoidsSecond : Avoids marks second) : Avoids marks (first + second) := by
  intro text member
  rcases (Language.mem_add _ _ text).mp member with isFirst | isSecond
  · exact avoidsFirst text isFirst
  · exact avoidsSecond text isSecond

theorem Avoids.mul (avoidsFirst : Avoids marks first)
    (avoidsSecond : Avoids marks second) : Avoids marks (first * second) := by
  rintro text ⟨front, isFirst, back, isSecond, rfl⟩ character inside
  rcases List.mem_append.mp inside with inFront | inBack
  · exact avoidsFirst front isFirst character inFront
  · exact avoidsSecond back isSecond character inBack

theorem Avoids.kstar (avoids : Avoids marks first) : Avoids marks first∗ := by
  rintro text ⟨pieces, rfl, isPiece⟩ character inside
  obtain ⟨piece, member, inPiece⟩ := List.mem_flatten.mp inside
  exact avoids piece (isPiece piece member) character inPiece

theorem avoids_oneOf {characters : List Char}
    (apart : ∀ character ∈ characters, character ∉ marks) :
    Avoids marks (oneOf characters) := by
  rintro text ⟨character, member, rfl⟩ other inside
  rw [List.mem_singleton.mp inside]
  exact apart character member

theorem avoids_run {isPart : Char → Bool}
    (apart : marks.any isPart = false) : Avoids marks (run isPart) := by
  rintro text ⟨-, parts⟩ character inside isMark
  exact List.any_eq_false.mp apart character isMark (parts character inside)

theorem avoids_word {isFirst isLater : Char → Bool}
    (notFirst : marks.any isFirst = false) (notLater : marks.any isLater = false) :
    Avoids marks (word isFirst isLater) := by
  rintro text ⟨first, others, rfl, begins, goesOn⟩ character inside isMark
  rcases List.mem_cons.mp inside with rfl | isOther
  · exact List.any_eq_false.mp notFirst character isMark begins
  · exact List.any_eq_false.mp notLater character isMark
      (goesOn character isOther)

theorem Avoids.mono {others : List Char} (avoids : Avoids marks first)
    (sub : others ⊆ marks) : Avoids others first :=
  fun text member character inside isMark =>
    avoids text member character inside (sub isMark)

theorem Avoids.joined {separators : List Char} (avoids : Avoids marks first)
    (apart : ∀ separator ∈ separators, separator ∉ marks) :
    Avoids marks (joined separators first) :=
  avoids.mul ((avoids_oneOf apart).mul avoids).kstar

end

/-! ## Cutting at marks -/

section

variable {marks : List Char} {front back : Language Char} {text : List Char}

theorem cons_mem_oneOf_mul {character : Char} {rest : List Char} :
    character :: rest ∈ oneOf marks * back ↔
      character ∈ marks ∧ rest ∈ back := by
  constructor
  · rintro ⟨_, ⟨mark, isMark, rfl⟩, others, isBack, same⟩
    obtain ⟨rfl, rfl⟩ := List.cons.inj same
    exact ⟨isMark, isBack⟩
  · rintro ⟨isMark, isBack⟩
    exact ⟨[character], ⟨character, isMark, rfl⟩, rest, isBack, rfl⟩

theorem nil_notMem_oneOf_mul : [] ∉ oneOf marks * back := by
  rintro ⟨_, ⟨mark, _, rfl⟩, others, _, same⟩
  exact List.cons_ne_nil _ _ same

/-- The texts of a language begin with a mark, unless they are empty. -/
def BeginsWith (marks : List Char) (language : Language Char) : Prop :=
  ∀ text ∈ language, ∀ first ∈ text.head?, first ∈ marks

theorem beginsWith_oneOf_mul : BeginsWith marks (oneOf marks * back) := by
  intro text member first isFirst
  obtain ⟨others, rfl⟩ := List.head?_eq_some_iff.mp isFirst
  exact (cons_mem_oneOf_mul.mp member).1

theorem beginsWith_one : BeginsWith marks 1 := by
  intro text member first isFirst
  rw [(Language.mem_one text).mp member] at isFirst
  exact absurd isFirst (Option.not_mem_none first)

theorem BeginsWith.add {first second : Language Char}
    (isFirst : BeginsWith marks first) (isSecond : BeginsWith marks second) :
    BeginsWith marks (first + second) := by
  intro text member
  rcases (Language.mem_add _ _ text).mp member with inFirst | inSecond
  · exact isFirst text inFirst
  · exact isSecond text inSecond

theorem BeginsWith.mono {others : List Char} (begins : BeginsWith marks back)
    (sub : marks ⊆ others) : BeginsWith others back :=
  fun text member first isFirst => sub (begins text member first isFirst)

/-- The part of a text before its first mark, and the part from there on. -/
def beforeMark (marks text : List Char) : List Char :=
  text.takeWhile fun character => !marks.contains character

def fromMark (marks text : List Char) : List Char :=
  text.dropWhile fun character => !marks.contains character

theorem span_append {part rest : List Char}
    (plain : ∀ character ∈ part, character ∉ marks)
    (begins : ∀ first ∈ rest.head?, first ∈ marks) :
    beforeMark marks (part ++ rest) = part ∧
      fromMark marks (part ++ rest) = rest := by
  have unmarked : ∀ character ∈ part,
      (!marks.contains character) = true := by
    simpa using plain
  rw [beforeMark, fromMark, List.takeWhile_append_of_pos unmarked,
    List.dropWhile_append_of_pos unmarked]
  cases rest with
  | nil => simp
  | cons first others => simp [begins first rfl]

theorem span_of_plain {part : List Char}
    (plain : ∀ character ∈ part, character ∉ marks) :
    beforeMark marks part = part ∧ fromMark marks part = [] := by
  simpa using @span_append marks part [] plain (by simp)

theorem span_append_mark {part : List Char}
    (plain : ∀ character ∈ part, character ∉ marks) {mark : Char}
    (isMark : mark ∈ marks) (rest : List Char) :
    beforeMark marks (part ++ mark :: rest) = part ∧
      fromMark marks (part ++ mark :: rest) = mark :: rest :=
  span_append plain (by simpa using isMark)

/-- Where the front avoids the marks and the back begins with one, a text is cut at
its first mark. -/
theorem mem_mul_iff_span (avoids : Avoids marks front)
    (begins : BeginsWith marks back) :
    text ∈ front * back ↔
      beforeMark marks text ∈ front ∧ fromMark marks text ∈ back := by
  constructor
  · rintro ⟨part, isFront, rest, isBack, rfl⟩
    obtain ⟨before, behind⟩ :=
      span_append (avoids part isFront) (begins rest isBack)
    rw [before, behind]
    exact ⟨isFront, isBack⟩
  · rintro ⟨isFront, isBack⟩
    exact ⟨_, isFront, _, isBack, List.takeWhile_append_dropWhile⟩

/-- Behind the part before its first mark a text ends or goes on with a mark. -/
theorem fromMark_cases (marks text : List Char) :
    fromMark marks text = [] ∨
      ∃ mark ∈ marks, ∃ rest, fromMark marks text = mark :: rest := by
  have stops := List.head?_dropWhile_not
    (fun character => !marks.contains character) text
  cases behind : fromMark marks text with
  | nil => exact Or.inl rfl
  | cons mark rest =>
      rw [show text.dropWhile _ = mark :: rest from behind] at stops
      exact Or.inr ⟨mark, by simpa using stops, rest, rfl⟩

theorem beforeMark_append_fromMark (marks text : List Char) :
    beforeMark marks text ++ fromMark marks text = text :=
  List.takeWhile_append_dropWhile

/-- A text has no mark, or it has a first one. -/
@[elab_as_elim]
theorem markInduction {motive : List Char → Prop} (marks : List Char)
    (plain : ∀ part, (∀ character ∈ part, character ∉ marks) → motive part)
    (cut : ∀ part mark rest, (∀ character ∈ part, character ∉ marks) →
      mark ∈ marks → motive rest → motive (part ++ mark :: rest))
    (text : List Char) : motive text := by
  have unmarked : ∀ character ∈ beforeMark marks text,
      character ∉ marks := by
    intro character member
    simpa using List.mem_takeWhile_imp member
  have whole := beforeMark_append_fromMark marks text
  rcases fromMark_cases marks text with behind | ⟨mark, isMark, rest, behind⟩
  · rw [← whole, behind, List.append_nil]
    exact plain _ unmarked
  · have shorter : rest.length < text.length := by
      rw [← whole, behind, List.length_append, List.length_cons]
      omega
    rw [← whole, behind]
    exact cut _ mark rest unmarked isMark (markInduction marks plain cut rest)
termination_by text.length

theorem splitOnP_plain {marks part : List Char}
    (plain : ∀ character ∈ part, character ∉ marks) :
    part.splitOnP marks.contains = [part] :=
  List.splitOnP_eq_singleton (by simpa using plain)

theorem splitOnP_cut {marks part : List Char} {mark : Char}
    (plain : ∀ character ∈ part, character ∉ marks) (isMark : mark ∈ marks)
    (rest : List Char) :
    (part ++ mark :: rest).splitOnP marks.contains =
      part :: rest.splitOnP marks.contains := by
  rw [List.splitOnP_append_cons _ _ (by simpa using isMark),
    splitOnP_plain plain, List.singleton_append]

end

/-! ## Joined pieces -/

section

variable {separators : List Char} {piece back : Language Char}

theorem joined_eq : joined separators piece =
    piece * (1 + oneOf separators * joined separators piece) := by
  rw [joined, ← mul_assoc, Language.one_add_self_mul_kstar_eq_kstar]

theorem mem_joined_of_plain (avoids : Avoids separators piece)
    {text : List Char} (plain : ∀ character ∈ text, character ∉ separators) :
    text ∈ joined separators piece ↔ text ∈ piece := by
  obtain ⟨before, behind⟩ := span_of_plain plain
  rw [joined_eq, mem_mul_iff_span avoids
    (beginsWith_one.add beginsWith_oneOf_mul), before, behind]
  exact and_iff_left (Or.inl rfl)

theorem append_mem_joined (avoids : Avoids separators piece)
    {part rest : List Char} {separator : Char}
    (plain : ∀ character ∈ part, character ∉ separators)
    (isSeparator : separator ∈ separators) :
    part ++ separator :: rest ∈ joined separators piece ↔
      part ∈ piece ∧ rest ∈ joined separators piece := by
  obtain ⟨before, behind⟩ := span_append_mark plain isSeparator rest
  rw [joined_eq, mem_mul_iff_span avoids
    (beginsWith_one.add beginsWith_oneOf_mul), before, behind, ← joined_eq,
    Language.mem_add, cons_mem_oneOf_mul, Language.mem_one]
  simp [isSeparator]

/-- A text is joined of pieces exactly when what stands between its separators are
pieces. -/
theorem mem_joined_iff (avoids : Avoids separators piece) (text : List Char) :
    text ∈ joined separators piece ↔
      ∀ part ∈ text.splitOnP separators.contains, part ∈ piece := by
  induction text using markInduction separators with
  | plain part plain =>
      rw [mem_joined_of_plain avoids plain, splitOnP_plain plain,
        List.forall_mem_singleton]
  | cut part separator rest plain isSeparator inductionHypothesis =>
      rw [append_mem_joined avoids plain isSeparator,
        splitOnP_cut plain isSeparator, List.forall_mem_cons,
        inductionHypothesis]

theorem joined_mul_eq : joined separators piece * back =
    piece * (back + oneOf separators * (joined separators piece * back)) := by
  conv_lhs => rw [joined_eq]
  rw [mul_assoc, add_mul, one_mul, mul_assoc]

end

/-! ## Classes of characters -/

theorem isRun_iff (isPart : Char → Bool) (text : List Char) :
    isRun isPart text = true ↔ text ∈ run isPart := by
  simp [isRun]

theorem isJoined_iff {separators : List Char}
    (apart : separators.any Char.isAlphanum = false)
    (text : List Char) :
    isJoined separators text = true ↔
      text ∈ joined separators (run Char.isAlphanum) := by
  rw [isJoined, List.all_eq_true, mem_joined_iff (avoids_run apart)]
  exact forall₂_congr fun part _ => isRun_iff _ part

theorem bne_eq_not_contains (mark : Char) :
    (fun character : Char => character != mark) =
      fun character => !([mark].contains character) := by
  funext character
  simp [bne, beq_eq_decide]

theorem beq_eq_contains (mark : Char) :
    (fun character : Char => character == mark) = [mark].contains := by
  funext character
  simp [beq_eq_decide]

theorem endsPath_eq_contains : endsPath = [':', '@'].contains := by
  funext character
  simp [endsPath, beq_eq_decide]

theorem mem_literal_mul {text : String} {back : Language Char}
    {whole : List Char} :
    whole ∈ literal text * back ↔
      ∃ rest ∈ back, text.toList ++ rest = whole := by
  constructor
  · rintro ⟨_, rfl, rest, isBack, rfl⟩
    exact ⟨rest, isBack, rfl⟩
  · rintro ⟨rest, isBack, rfl⟩
    exact ⟨_, rfl, rest, isBack, rfl⟩

theorem isLocal_iff (text : List Char) :
    isLocal text = true ↔ text ∈ Form.path.addresses ∧ '\n' ∉ text := by
  have noBreak : '\n' ∉ "./".toList := by decide
  rw [Form.addresses, mem_literal_mul, isLocal]
  constructor
  · intro accepted
    split at accepted
    · contradiction
    · rename_i path begins
      rw [List.isPrefixOf?_eq_some_iff_append_eq] at begins
      refine ⟨⟨path, trivial, begins⟩, ?_⟩
      rw [← begins, List.mem_append, not_or]
      exact ⟨noBreak, by simpa using accepted⟩
  · rintro ⟨⟨path, -, rfl⟩, oneLine⟩
    rw [List.isPrefixOf?_eq_some_iff_append_eq.mpr rfl]
    rw [List.mem_append, not_or] at oneLine
    simpa using oneLine.2

/-! ## Repositories -/

theorem avoids_repositoryOwner :
    Avoids ['/', '@', '.', ':', '\n'] repositoryOwner :=
  (avoids_run rfl).joined (by simp)

theorem avoids_repositoryName : Avoids ['/', '@', '\n'] repositoryName :=
  avoids_run rfl

/-- What stands before the revision. -/
def repositoryPath : Language Char :=
  repositoryOwner * (oneOf ['/'] * joined ['/'] repositoryName)

theorem avoids_repositoryPath : Avoids ['@', '\n'] repositoryPath :=
  (avoids_repositoryOwner.mono (by simp)).mul ((avoids_oneOf (by simp)).mul
    ((avoids_repositoryName.mono (by simp)).joined (by simp)))

theorem addresses_repository : Form.repository.addresses =
    repositoryPath * (oneOf ['@'] * revision) := by
  rw [Form.addresses, repositoryPath, joined]
  simp only [mul_assoc]

theorem isRepositoryPath_iff (text : List Char) :
    isRepositoryPath text = true ↔ text ∈ repositoryPath := by
  have avoidsOwner : Avoids ['/'] repositoryOwner :=
    avoids_repositoryOwner.mono (by simp)
  have avoidsName : Avoids ['/'] repositoryName :=
    avoids_repositoryName.mono (by simp)
  rw [isRepositoryPath, beq_eq_contains, repositoryPath,
    mem_mul_iff_span avoidsOwner beginsWith_oneOf_mul]
  induction text using markInduction ['/'] with
  | plain part plain =>
      rw [splitOnP_plain plain, (span_of_plain plain).2]
      simp [nil_notMem_oneOf_mul]
  | cut part mark rest plain isMark _ =>
      obtain ⟨before, behind⟩ := span_append_mark plain isMark rest
      obtain ⟨name, names, pieces⟩ := List.exists_cons_of_ne_nil
        (List.splitOnP_ne_nil ['/'].contains rest)
      have isOwner : isJoined ['-'] part = true ↔ part ∈ repositoryOwner :=
        isJoined_iff rfl part
      have areNames : (name :: names).all (isRun isNamePart) = true ↔
          rest ∈ joined ['/'] repositoryName := by
        rw [mem_joined_iff avoidsName, pieces, List.all_eq_true]
        exact forall₂_congr fun piece _ => isRun_iff _ piece
      rw [before, behind, cons_mem_oneOf_mul, splitOnP_cut plain isMark, pieces,
        and_iff_right isMark, ← isOwner, ← areNames, ← Bool.and_eq_true]

theorem isRemote_eq (text : List Char) :
    isRemote text = (isRepositoryPath (beforeMark ['@'] text) &&
      match fromMark ['@'] text with
      | _ :: revision => !revision.isEmpty && !revision.contains '\n'
      | [] => false) := by
  rw [isRemote, bne_eq_not_contains]
  rfl

theorem isRemote_iff (text : List Char) :
    isRemote text = true ↔
      text ∈ Form.repository.addresses ∧ '\n' ∉ text := by
  rw [isRemote_eq, Bool.and_eq_true, isRepositoryPath_iff,
    addresses_repository, mem_mul_iff_span
      (avoids_repositoryPath.mono (by simp)) beginsWith_oneOf_mul, and_assoc]
  refine and_congr_right fun isPath => ?_
  have before : '\n' ∉ beforeMark ['@'] text := fun inside =>
    avoids_repositoryPath _ isPath '\n' inside (by simp)
  have break_iff : '\n' ∉ text ↔ '\n' ∉ fromMark ['@'] text := by
    conv_lhs => rw [← beforeMark_append_fromMark ['@'] text]
    rw [List.mem_append, not_or, and_iff_right before]
  rw [break_iff]
  rcases fromMark_cases ['@'] text with behind | ⟨mark, isMark, rest, behind⟩
  · simp [behind, nil_notMem_oneOf_mul]
  · obtain rfl := List.mem_singleton.mp isMark
    rw [behind, cons_mem_oneOf_mul]
    simp

/-! ## Images -/

theorem isHostPart_iff (text : List Char) :
    isHostPart text = true ↔ text ∈ hostPart := by
  simp [isHostPart, isAlphanumOr, and_assoc, Option.any_eq_true]

theorem avoids_hostPart : Avoids ['.', ':', '/', '\n'] hostPart := by
  have apart : ['.', ':', '/', '\n'].any (isAlphanumOr ['-']) = false := rfl
  rintro text ⟨parts, -⟩ character inside isMark
  exact List.any_eq_false.mp apart character isMark (parts character inside)

theorem isRegistry_eq (text : List Char) :
    isRegistry text =
      (((beforeMark [':'] text).splitOnP ['.'].contains).all isHostPart &&
        match fromMark [':'] text with
        | [] => true
        | _ :: number => isRun Char.isDigit number) := by
  rw [isRegistry, bne_eq_not_contains, beq_eq_contains]
  change (match fromMark [':'] text with
    | [] => ((beforeMark [':'] text).splitOnP ['.'].contains).all isHostPart
    | _ :: number =>
        ((beforeMark [':'] text).splitOnP ['.'].contains).all isHostPart &&
          isRun Char.isDigit number) = _
  split
  · rw [Bool.and_true]
  · rfl

theorem isRegistry_iff (text : List Char) :
    isRegistry text = true ↔ text ∈ registry := by
  have avoidsPoint : Avoids ['.'] hostPart := avoids_hostPart.mono (by simp)
  have avoidsColon : Avoids [':'] (joined ['.'] hostPart) :=
    (avoids_hostPart.mono (by simp)).joined (by simp)
  rw [isRegistry_eq, Bool.and_eq_true, List.all_eq_true, registry,
    mem_mul_iff_span avoidsColon (beginsWith_one.add beginsWith_oneOf_mul),
    mem_joined_iff avoidsPoint]
  refine and_congr (forall₂_congr fun part _ => isHostPart_iff part) ?_
  rcases fromMark_cases [':'] text with behind | ⟨mark, isMark, rest, behind⟩
  · rw [behind]
    exact iff_of_true rfl (Or.inl rfl)
  · rw [behind, Language.mem_add, cons_mem_oneOf_mul, Language.mem_one,
      isRun_iff]
    simp [isMark]

theorem avoids_registry : Avoids ['/', '\n'] registry :=
  ((avoids_hostPart.mono (by simp)).joined (by simp)).mul
    (avoids_one.add ((avoids_oneOf (by simp)).mul (avoids_run rfl)))

theorem isTag_iff (text : List Char) : isTag text = true ↔ text ∈ tag := by
  cases text with
  | nil => simp [isTag, tag]
  | cons first others => simp [isTag, tag, isAlphanumOr, isNamePart]

theorem isAlgorithmPart_iff (text : List Char) :
    isAlgorithmPart text = true ↔
      text ∈ word Char.isAlpha Char.isAlphanum := by
  cases text with
  | nil => simp [isAlgorithmPart]
  | cons first others => simp [isAlgorithmPart]

theorem isDigest_eq (text : List Char) :
    isDigest text =
      (((beforeMark [':'] text).splitOnP
          ['+', '.', '_', '-'].contains).all isAlgorithmPart &&
        match fromMark [':'] text with
        | _ :: digits => isRun isHexDigit digits
        | [] => false) := by
  rw [isDigest, bne_eq_not_contains]
  rfl

theorem isDigest_iff (text : List Char) :
    isDigest text = true ↔ text ∈ digest := by
  have avoidsJoints : Avoids ['+', '.', '_', '-']
      (word Char.isAlpha Char.isAlphanum) := avoids_word rfl rfl
  have avoidsColon : Avoids [':'] algorithm :=
    (avoids_word rfl rfl).joined (by simp)
  rw [isDigest_eq, Bool.and_eq_true, List.all_eq_true, digest,
    mem_mul_iff_span avoidsColon beginsWith_oneOf_mul, algorithm,
    mem_joined_iff avoidsJoints]
  refine and_congr (forall₂_congr fun part _ => isAlgorithmPart_iff part) ?_
  rcases fromMark_cases [':'] text with behind | ⟨mark, isMark, rest, behind⟩
  · simp [behind, nil_notMem_oneOf_mul]
  · rw [behind, cons_mem_oneOf_mul, and_iff_right isMark, isRun_iff]
    rfl

theorem isComponent_iff (text : List Char) :
    isComponent text = true ↔ text ∈ component :=
  isJoined_iff rfl text

theorem avoids_component : Avoids [':', '@', '/', '\n'] component :=
  (avoids_run rfl).joined (by simp)

theorem avoids_reference : Avoids ['/', '\n'] reference := by
  have tags : Avoids ['/', '\n'] (oneOf [':'] * tag) :=
    (avoids_oneOf (by simp)).mul (avoids_word rfl rfl)
  have algorithms : Avoids ['/', '\n'] algorithm :=
    (avoids_word rfl rfl).joined (by simp)
  have digests : Avoids ['/', '\n'] (oneOf ['@'] * digest) :=
    (avoids_oneOf (by simp)).mul (algorithms.mul
      ((avoids_oneOf (by simp)).mul (avoids_run rfl)))
  exact avoids_one.add (tags.add digests)

theorem isLastComponent_iff (text : List Char) :
    isLastComponent text = true ↔ text ∈ component * reference := by
  have begins : BeginsWith [':', '@'] reference :=
    beginsWith_one.add ((beginsWith_oneOf_mul.mono (by simp)).add
      (beginsWith_oneOf_mul.mono (by simp)))
  rw [mem_mul_iff_span (avoids_component.mono (by simp)) begins,
    ← isComponent_iff, isLastComponent, Bool.and_eq_true, endsPath_eq_contains]
  refine and_congr_right fun _ => ?_
  change (match fromMark [':', '@'] text with
    | [] => true
    | mark :: reference =>
        if mark = ':' then isTag reference else isDigest reference) = true ↔ _
  rcases fromMark_cases [':', '@'] text with
    behind | ⟨mark, isMark, rest, behind⟩
  · rw [behind]
    exact iff_of_true rfl (Or.inl rfl)
  · rw [behind, reference, Language.mem_add, Language.mem_add,
      cons_mem_oneOf_mul, cons_mem_oneOf_mul, Language.mem_one, ← isTag_iff,
      ← isDigest_iff]
    rcases List.mem_pair.mp isMark with rfl | rfl
    · simp
    · simp

/-- The path of an image with the reference behind it. -/
def imagePath : Language Char := joined ['/'] component * reference

theorem imagePath_eq : imagePath =
    component * reference + component * (oneOf ['/'] * imagePath) := by
  conv_lhs => rw [imagePath, joined_mul_eq, mul_add]
  rfl

theorem mem_imagePath_of_plain {text : List Char}
    (plain : ∀ character ∈ text, character ∉ ['/']) :
    text ∈ imagePath ↔ text ∈ component * reference := by
  rw [imagePath_eq, Language.mem_add]
  refine or_iff_left fun several => ?_
  obtain ⟨front, -, back, ⟨slash, ⟨mark, isMark, rfl⟩, others, -, rfl⟩, rfl⟩ :=
    several
  exact plain mark (by simp) isMark

theorem append_mem_imagePath {part rest : List Char} {mark : Char}
    (plain : ∀ character ∈ part, character ∉ ['/']) (isMark : mark ∈ ['/']) :
    part ++ mark :: rest ∈ imagePath ↔
      part ∈ component ∧ rest ∈ imagePath := by
  obtain ⟨before, behind⟩ := span_append_mark plain isMark rest
  have notLast : part ++ mark :: rest ∉ component * reference := by
    have avoids : Avoids ['/'] (component * reference) :=
      (avoids_component.mono (by simp)).mul (avoids_reference.mono (by simp))
    exact fun last => avoids _ last mark (by simp) isMark
  rw [imagePath_eq, Language.mem_add, or_iff_right notLast,
    mem_mul_iff_span (avoids_component.mono (by simp)) beginsWith_oneOf_mul,
    before, behind, cons_mem_oneOf_mul, and_iff_right isMark, ← imagePath_eq]

theorem areLaterComponents_iff (text : List Char) :
    areLaterComponents (text.splitOnP ['/'].contains) = true ↔
      text ∈ imagePath := by
  induction text using markInduction ['/'] with
  | plain part plain =>
      rw [splitOnP_plain plain, mem_imagePath_of_plain plain]
      exact isLastComponent_iff part
  | cut part mark rest plain isMark inductionHypothesis =>
      obtain ⟨next, others, pieces⟩ := List.exists_cons_of_ne_nil
        (List.splitOnP_ne_nil ['/'].contains rest)
      rw [splitOnP_cut plain isMark, append_mem_imagePath plain isMark,
        ← isComponent_iff, ← inductionHypothesis, pieces, areLaterComponents,
        Bool.and_eq_true]
      simp

/-- What stands behind `docker://`. -/
theorem image_iff (text : List Char) :
    (match text.splitOnP ['/'].contains with
      | [] => false
      | [only] => isLastComponent only
      | first :: others =>
          (isRegistry first || isComponent first) &&
            areLaterComponents others) = true ↔
      text ∈ (1 + registry * oneOf ['/']) * imagePath := by
  rw [add_mul, one_mul, mul_assoc, Language.mem_add, mem_mul_iff_span
    (avoids_registry.mono (by simp)) beginsWith_oneOf_mul]
  induction text using markInduction ['/'] with
  | plain part plain =>
      rw [splitOnP_plain plain, mem_imagePath_of_plain plain,
        (span_of_plain plain).2,
        ← isLastComponent_iff]
      simp [nil_notMem_oneOf_mul]
  | cut part mark rest plain isMark _ =>
      obtain ⟨before, behind⟩ := span_append_mark plain isMark rest
      obtain ⟨next, others, pieces⟩ := List.exists_cons_of_ne_nil
        (List.splitOnP_ne_nil ['/'].contains rest)
      rw [splitOnP_cut plain isMark, append_mem_imagePath plain isMark, before,
        behind, cons_mem_oneOf_mul, and_iff_right isMark, ← isRegistry_iff,
        ← isComponent_iff, ← areLaterComponents_iff, pieces, ← or_and_right,
        or_comm]
      simp

theorem isImage_iff (text : List Char) :
    isImage text = true ↔ text ∈ Form.image.addresses := by
  rw [Form.addresses, mem_literal_mul, isImage, beq_eq_contains]
  constructor
  · intro accepted
    split at accepted
    · contradiction
    · rename_i image begins
      exact ⟨image, (image_iff image).mp accepted,
        List.isPrefixOf?_eq_some_iff_append_eq.mp begins⟩
  · rintro ⟨image, member, rfl⟩
    rw [List.isPrefixOf?_eq_some_iff_append_eq.mpr rfl]
    exact (image_iff image).mpr member

theorem avoids_image : Avoids ['\n'] Form.image.addresses := by
  have text : Avoids ['\n'] (literal "docker://") := by
    rintro _ rfl character inside isMark
    rw [List.mem_singleton.mp isMark] at inside
    exact absurd inside (by decide)
  have registries : Avoids ['\n'] (registry * oneOf ['/']) :=
    (avoids_registry.mono (by simp)).mul (avoids_oneOf (by simp))
  have paths : Avoids ['\n'] (joined ['/'] component) :=
    (avoids_component.mono (by simp)).joined (by simp)
  exact text.mul ((avoids_one.add registries).mul
    (paths.mul (avoids_reference.mono (by simp))))

/-! ## One form each -/

/-- The form of an address, from what stands before its first slash. -/
def formOf (beginning : List Char) : Form :=
  if beginning = ".".toList then .path
  else if beginning = "docker:".toList then .image
  else .repository

theorem formOf_beforeMark {text : List Char} {form : Form}
    (member : text ∈ form.addresses) :
    formOf (beforeMark ['/'] text) = form := by
  cases form with
  | path =>
      obtain ⟨rest, -, rfl⟩ := mem_literal_mul.mp member
      rfl
  | repository =>
      rw [addresses_repository, repositoryPath, mul_assoc, mul_assoc] at member
      have isOwner := ((mem_mul_iff_span (avoids_repositoryOwner.mono (by simp))
        beginsWith_oneOf_mul).mp member).1
      have plain := avoids_repositoryOwner _ isOwner
      unfold formOf
      split
      · rename_i isPoint
        rw [isPoint] at plain
        exact absurd (plain '.' (by decide)) (by decide)
      · split
        · rename_i isScheme
          rw [isScheme] at plain
          exact absurd (plain ':' (by decide)) (by decide)
        · rfl
  | image =>
      obtain ⟨rest, -, rfl⟩ := mem_literal_mul.mp member
      rfl

/-- The check accepts the texts of one line that are addresses of exactly one
form. -/
theorem isValid_iff_existsUnique (address : String) :
    isValid address = true ↔ '\n' ∉ address.toList ∧
      ∃! form : Form, address.toList ∈ form.addresses := by
  have imageOneLine (isImage : address.toList ∈ Form.image.addresses) :
      '\n' ∉ address.toList :=
    fun inside => avoids_image _ isImage '\n' inside (by simp)
  have accepted : isValid address = true ↔ '\n' ∉ address.toList ∧
      ∃ form : Form, address.toList ∈ form.addresses := by
    rw [isValid, Bool.or_eq_true, Bool.or_eq_true, isLocal_iff, isRemote_iff,
      isImage_iff]
    constructor
    · rintro ((⟨isPath, oneLine⟩ | ⟨isRepository, oneLine⟩) | isImage)
      · exact ⟨oneLine, .path, isPath⟩
      · exact ⟨oneLine, .repository, isRepository⟩
      · exact ⟨imageOneLine isImage, .image, isImage⟩
    · rintro ⟨oneLine, form, member⟩
      cases form with
      | path => exact Or.inl (Or.inl ⟨member, oneLine⟩)
      | repository => exact Or.inl (Or.inr ⟨member, oneLine⟩)
      | image => exact Or.inr member
  have unique : (∃! form : Form, address.toList ∈ form.addresses) ↔
      ∃ form : Form, address.toList ∈ form.addresses := by
    refine ⟨ExistsUnique.exists, fun ⟨form, member⟩ => ⟨form, member, ?_⟩⟩
    intro other isOther
    rw [← formOf_beforeMark isOther, formOf_beforeMark member]
  rw [accepted, unique]

end Address
end WorkflowLang
