import WorkflowLang.Compilation
import WorkflowLang.Proofs.Checks.Cycles
import WorkflowLang.Proofs.Document.Renaming

/-!
# The reports of each stage

The problems of a stage have numbers of their own, and binding and the checks
report at tokens of the tree.  Both are said of all reports of a function at once
(`Diagnostic.AllFrom`), and of a stage by putting its functions together.
-/

namespace WorkflowLang

def Problem.isNumbered (lowest highest : Nat) (problem : Problem) : Bool :=
  lowest ≤ problem.code && problem.code ≤ highest

namespace Diagnostic

/-- A report of a stage that finds the problems with some numbers, at one of some
places. -/
structure IsFrom (lowest highest : Nat) (places : List Span)
    (diagnostic : Diagnostic) : Prop where
  isNumbered : diagnostic.problem.isNumbered lowest highest = true
  span_mem : diagnostic.span ∈ places

def AllFrom (lowest highest : Nat) (places : List Span)
    (diagnostics : List Diagnostic) : Prop :=
  ∀ diagnostic ∈ diagnostics, diagnostic.IsFrom lowest highest places

variable {lowest highest : Nat} {places : List Span}

@[simp] theorem allFrom_nil : AllFrom lowest highest places [] := by
  simp [AllFrom]

@[simp] theorem allFrom_cons {diagnostic : Diagnostic}
    {others : List Diagnostic} :
    AllFrom lowest highest places (diagnostic :: others) ↔
      diagnostic.IsFrom lowest highest places ∧
        AllFrom lowest highest places others :=
  List.forall_mem_cons

/-- A single report, given by the number of its problem and its place. -/
theorem allFrom_singleton {problem : Problem} {span : Span}
    (isNumbered : problem.isNumbered lowest highest = true)
    (placed : span ∈ places) :
    AllFrom lowest highest places [⟨problem, span⟩] :=
  allFrom_cons.mpr ⟨⟨isNumbered, placed⟩, allFrom_nil⟩

@[simp] theorem allFrom_append {first second : List Diagnostic} :
    AllFrom lowest highest places (first ++ second) ↔
      AllFrom lowest highest places first ∧
        AllFrom lowest highest places second :=
  List.forall_mem_append

theorem allFrom_flatMap {Piece : Type} {pieces : List Piece}
    {reports : Piece → List Diagnostic}
    (all : ∀ piece ∈ pieces, AllFrom lowest highest places (reports piece)) :
    AllFrom lowest highest places (pieces.flatMap reports) := by
  intro diagnostic member
  obtain ⟨piece, present, inside⟩ := List.mem_flatMap.mp member
  exact all piece present diagnostic inside

theorem allFrom_map {Piece : Type} {pieces : List Piece}
    {report : Piece → Diagnostic}
    (all : ∀ piece ∈ pieces, (report piece).IsFrom lowest highest places) :
    AllFrom lowest highest places (pieces.map report) := by
  intro diagnostic member
  obtain ⟨piece, present, rfl⟩ := List.mem_map.mp member
  exact all piece present

/-- A report that is made on a condition. -/
theorem allFrom_ite {condition : Prop} [Decidable condition]
    {first second : List Diagnostic}
    (whenTrue : AllFrom lowest highest places first)
    (whenFalse : AllFrom lowest highest places second) :
    AllFrom lowest highest places (if condition then first else second) := by
  split
  · exact whenTrue
  · exact whenFalse

theorem AllFrom.mono {lower higher : Nat} {diagnostics : List Diagnostic}
    (all : AllFrom lowest highest places diagnostics)
    (lowerLe : lower ≤ lowest) (leHigher : highest ≤ higher) :
    AllFrom lower higher places diagnostics := by
  intro diagnostic member
  obtain ⟨isNumbered, placed⟩ := all diagnostic member
  refine ⟨?_, placed⟩
  simp only [Problem.isNumbered, Bool.and_eq_true, decide_eq_true_eq]
    at isNumbered ⊢
  omega

/-- A stage that finds the problems with other numbers reports none of these. -/
theorem AllFrom.filter_isNumbered_eq_nil {first last : Nat}
    {diagnostics : List Diagnostic}
    (all : AllFrom lowest highest places diagnostics)
    (apart : highest < first ∨ last < lowest) :
    diagnostics.filter (fun diagnostic =>
      diagnostic.problem.isNumbered first last) = [] := by
  refine List.filter_eq_nil_iff.mpr fun diagnostic member numbered => ?_
  have isNumbered := (all diagnostic member).isNumbered
  simp only [Problem.isNumbered, Bool.and_eq_true, decide_eq_true_eq]
    at isNumbered numbered
  omega

theorem AllFrom.filter_isNumbered_eq_self {first last : Nat}
    {diagnostics : List Diagnostic}
    (all : AllFrom lowest highest places diagnostics)
    (firstLe : first ≤ lowest) (leLast : highest ≤ last) :
    diagnostics.filter (fun diagnostic =>
      diagnostic.problem.isNumbered first last) = diagnostics :=
  List.filter_eq_self.mpr fun diagnostic member =>
    (all.mono firstLe leLast diagnostic member).isNumbered

end Diagnostic

open Diagnostic (AllFrom)

/-- All of some tokens stand at some places. -/
def Token.AllAt (places : List Span) (tokens : List Token) : Prop :=
  ∀ token ∈ tokens, token.span ∈ places

theorem Token.allAt_self (tokens : List Token) :
    AllAt (tokens.map Token.span) tokens :=
  fun _ member => List.mem_map_of_mem member

theorem Token.AllAt.mono {places : List Span} {tokens others : List Token}
    (placed : AllAt places tokens) (included : others ⊆ tokens) :
    AllAt places others :=
  fun token member => placed token (included member)

section

variable {places : List Span}

theorem EnvironmentVariable.allFrom_duplicateDiagnostics
    {entries : List EnvironmentVariable}
    (placed : ∀ entry ∈ entries, entry.member.name.span ∈ places)
    (seen : List String) :
    AllFrom 9 15 places (duplicateDiagnostics seen entries) := by
  fun_induction duplicateDiagnostics seen entries with
  | case1 => exact Diagnostic.allFrom_nil
  | case2 seen entry others known inductionHypothesis =>
      rw [List.forall_mem_cons] at placed
      exact Diagnostic.allFrom_cons.mpr
        ⟨⟨rfl, placed.1⟩, inductionHypothesis placed.2⟩
  | case3 seen entry others fresh inductionHypothesis =>
      rw [List.forall_mem_cons] at placed
      exact inductionHypothesis placed.2

theorem EnvironmentVariable.member_of_ofMember? {member : ObjectMember}
    {entry : EnvironmentVariable} (defines : ofMember? member = some entry) :
    entry.member = member := by
  unfold ofMember? at defines
  split at defines
  · contradiction
  · split at defines
    · contradiction
    · rw [← Option.some.inj defines]

/-- The name of a variable is a token of the object that defines it. -/
theorem PropertyValue.name_mem_tokens {value : PropertyValue}
    {entry : EnvironmentVariable} (member : entry ∈ value.members) :
    entry.member.name ∈ value.tokens := by
  cases value with
  | string value => simp [members] at member
  | array openBracket items closeBracket => simp [members] at member
  | object openBracket members closeBracket =>
      obtain ⟨found, isMember, defines⟩ := List.mem_filterMap.mp member
      obtain rfl := EnvironmentVariable.member_of_ofMember? defines
      refine List.mem_append_left _ (List.mem_cons_of_mem _ ?_)
      exact List.mem_flatMap.mpr ⟨_, isMember, List.mem_cons_self⟩

theorem Property.allFrom_valueDiagnostics {property : Property}
    (placed : Token.AllAt places property.tokens) :
    AllFrom 9 15 places property.valueDiagnostics := by
  have atKey : property.key.span ∈ places := placed _ List.mem_cons_self
  have atNames : ∀ entry ∈ property.value.members,
      entry.member.name.span ∈ places := fun entry member =>
    placed _ (List.mem_append_right _ (PropertyValue.name_mem_tokens member))
  unfold valueDiagnostics
  dsimp only
  split
  · split
    · exact Diagnostic.allFrom_nil
    · exact Diagnostic.allFrom_singleton rfl atKey
  · split
    · split
      · exact EnvironmentVariable.allFrom_duplicateDiagnostics atNames []
      · exact Diagnostic.allFrom_singleton rfl atKey
    · split
      · exact Diagnostic.allFrom_singleton rfl atKey
      · exact Diagnostic.allFrom_nil

namespace Block

theorem allFrom_propertyDiagnostics {properties : List Property}
    (placed : Token.AllAt places (properties.flatMap Property.tokens))
    (kind : BlockKind) (seen : List TokenKind) :
    AllFrom 9 15 places (propertyDiagnostics kind seen properties) := by
  fun_induction propertyDiagnostics kind seen properties with
  | case1 => exact Diagnostic.allFrom_nil
  | case2 seen property others key invalid inductionHypothesis =>
      obtain ⟨here, behind⟩ := List.forall_mem_append.mp placed
      have atKey : key.span ∈ places := here key List.mem_cons_self
      exact Diagnostic.allFrom_cons.mpr
        ⟨⟨rfl, atKey⟩, inductionHypothesis behind⟩
  | case3 seen property others key valid defined inductionHypothesis =>
      obtain ⟨here, behind⟩ := List.forall_mem_append.mp placed
      have atKey : key.span ∈ places := here key List.mem_cons_self
      exact Diagnostic.allFrom_cons.mpr
        ⟨⟨rfl, atKey⟩, inductionHypothesis behind⟩
  | case4 seen property others key valid fresh inductionHypothesis =>
      obtain ⟨here, behind⟩ := List.forall_mem_append.mp placed
      exact Diagnostic.allFrom_append.mpr
        ⟨Property.allFrom_valueDiagnostics here, inductionHypothesis behind⟩

theorem allFrom_diagnostics {block : Block}
    (placed : Token.AllAt places block.tokens) :
    AllFrom 9 15 places block.diagnostics := by
  have atKeyword : block.keyword.span ∈ places :=
    placed _ List.mem_cons_self
  refine Diagnostic.allFrom_append.mpr
    ⟨allFrom_propertyDiagnostics (placed.mono ?_) _ _, ?_⟩
  · intro token member
    exact List.mem_append_left _ (List.mem_append_right _ member)
  · exact Diagnostic.allFrom_ite
      (Diagnostic.allFrom_singleton rfl atKeyword) Diagnostic.allFrom_nil

theorem allFrom_listDiagnostics {version : Option VersionStatement}
    (atVersion : ∀ statement ∈ version, statement.keyword.span ∈ places)
    {blocks : List Block}
    (placed : ∀ block ∈ blocks, Token.AllAt places block.tokens) :
    AllFrom 8 15 places (listDiagnostics version blocks) := by
  induction blocks generalizing version with
  | nil => simp [listDiagnostics]
  | cons block others inductionHypothesis =>
      rw [List.forall_mem_cons] at placed
      have here : AllFrom 8 15 places block.diagnostics :=
        (allFrom_diagnostics placed.1).mono (by decide) (by decide)
      have behind {version : Option VersionStatement}
          (atVersion : ∀ statement ∈ version,
            statement.keyword.span ∈ places) :
          AllFrom 8 15 places (listDiagnostics version others) :=
        inductionHypothesis atVersion placed.2
      cases version with
      | none =>
          exact Diagnostic.allFrom_append.mpr ⟨here, behind (by simp)⟩
      | some statement =>
          refine Diagnostic.allFrom_ite ?_ ?_
          · refine Diagnostic.allFrom_cons.mpr ⟨⟨rfl, atVersion _ rfl⟩, ?_⟩
            exact Diagnostic.allFrom_append.mpr ⟨here, behind (by simp)⟩
          · exact Diagnostic.allFrom_append.mpr ⟨here, behind atVersion⟩

end Block

theorem VersionStatement.allFrom_listDiagnostics
    {versions : List VersionStatement}
    (placed : ∀ version ∈ versions, Token.AllAt places version.tokens) :
    AllFrom 6 7 places (listDiagnostics versions) := by
  cases versions with
  | nil => exact Diagnostic.allFrom_nil
  | cons first others =>
      rw [List.forall_mem_cons] at placed
      have atInteger : first.integer.span ∈ places :=
        placed.1 _ (by simp [tokens])
      refine Diagnostic.allFrom_append.mpr
        ⟨?_, Diagnostic.allFrom_map fun version member => ?_⟩
      · unfold valueDiagnostics
        dsimp only
        split
        · exact Diagnostic.allFrom_nil
        · split
          · exact Diagnostic.allFrom_nil
          · exact Diagnostic.allFrom_singleton rfl atInteger
      · exact ⟨rfl, placed.2 version member _ List.mem_cons_self⟩

theorem SyntaxTree.allAt_version {tree : SyntaxTree}
    (placed : Token.AllAt places tree.tokens) :
    ∀ version ∈ tree.versions, Token.AllAt places version.tokens :=
  fun _ member => placed.mono fun _ inside =>
    List.mem_flatMap.mpr ⟨_, mem_of_mem_versions member, inside⟩

theorem SyntaxTree.allAt_block {tree : SyntaxTree}
    (placed : Token.AllAt places tree.tokens) :
    ∀ block ∈ tree.blocks, Token.AllAt places block.tokens :=
  fun _ member => placed.mono fun _ inside =>
    List.mem_flatMap.mpr ⟨_, mem_of_mem_blocks member, inside⟩

/-- Binding reports at tokens of the tree. -/
theorem SyntaxTree.allFrom_bindingDiagnostics {tree : SyntaxTree}
    (placed : Token.AllAt places tree.tokens) :
    AllFrom 6 15 places tree.bindingDiagnostics := by
  have atVersions := allAt_version placed
  have aboutVersions := VersionStatement.allFrom_listDiagnostics atVersions
  have aboutBlocks := Block.allFrom_listDiagnostics
    (fun statement isFirst => atVersions statement (List.mem_of_head? isFirst)
      _ List.mem_cons_self) (allAt_block placed)
  exact Diagnostic.allFrom_append.mpr
    ⟨aboutVersions.mono (by decide) (by decide),
      aboutBlocks.mono (by decide) (by decide)⟩

end

namespace Block

variable {block : Block} {key : TokenKind}

/-- A slot is filled from a value in the block. -/
theorem exists_value_of_slot {Value : Type} {read : PropertyValue → Value}
    {definition : Definition Value}
    (filled : block.slot key read = some definition) :
    ∃ value : PropertyValue, definition.value = read value ∧
      value.tokens ⊆ block.tokens := by
  obtain ⟨property, found, rfl⟩ := Option.map_eq_some_iff.mp filled
  refine ⟨property.value, rfl, fun token inside => ?_⟩
  refine List.mem_append_left _ (List.mem_append_right _ ?_)
  exact List.mem_flatMap.mpr ⟨property, (property?_eq_some found).1,
    List.mem_append_right _ inside⟩

theorem exists_value_of_entries {Item : Type}
    {read : PropertyValue → List Item} {item : Item}
    (member : item ∈ Definition.entries (block.slot key read)) :
    ∃ value : PropertyValue, item ∈ read value ∧
      value.tokens ⊆ block.tokens := by
  cases filled : block.slot key read with
  | none => simp [filled, Definition.entries] at member
  | some definition =>
      obtain ⟨value, readValue, included⟩ := exists_value_of_slot filled
      rw [filled, Definition.entries, readValue] at member
      exact ⟨value, member, included⟩

variable {places : List Span}

theorem span_of_strings (placed : Token.AllAt places block.tokens)
    {entry : StringValue} (member : entry ∈
      Definition.entries (block.slot key PropertyValue.strings)) :
    entry.span ∈ places := by
  obtain ⟨value, isEntry, included⟩ := exists_value_of_entries member
  exact placed _ (included
    (value.map_token_strings_sublist.subset (List.mem_map_of_mem isEntry)))

theorem span_of_string (placed : Token.AllAt places block.tokens)
    {string : StringValue}
    (isString : (block.slot key PropertyValue.string?).bind
      Definition.value = some string) :
    string.span ∈ places := by
  obtain ⟨definition, filled, isValue⟩ := Option.bind_eq_some_iff.mp isString
  obtain ⟨value, readValue, included⟩ := exists_value_of_slot filled
  rw [readValue] at isValue
  cases value with
  | string token =>
      obtain ⟨rfl, -⟩ := StringValue.ofToken?_eq_some isValue
      exact placed _ (included List.mem_cons_self)
  | array _ _ _ => contradiction
  | object _ _ _ => contradiction

theorem span_of_environment (placed : Token.AllAt places block.tokens)
    {entry : EnvironmentVariable} (member : entry ∈
      Definition.entries (block.slot key PropertyValue.environment)) :
    entry.member.name.span ∈ places := by
  obtain ⟨value, isEntry, included⟩ := exists_value_of_entries member
  have isMember : entry ∈ value.members :=
    (EnvironmentVariable.firstOfName_sublist [] value.members).subset isEntry
  exact placed _ (included (PropertyValue.name_mem_tokens isMember))

end Block

/-- Where the reports about a workflow may stand. -/
structure Workflow.StandsAt (places : List Span) (workflow : Workflow) :
    Prop where
  name : workflow.block.name.span ∈ places
  references : ∀ entry ∈ workflow.references, entry.span ∈ places
  event : ∀ event ∈ workflow.event?, event.span ∈ places

/-- Where the reports about an action may stand. -/
structure Action.StandsAt (places : List Span) (action : Action) :
    Prop where
  name : action.block.name.span ∈ places
  references : ∀ entry ∈ action.references, entry.span ∈ places
  secrets : ∀ entry ∈ action.secretNames, entry.span ∈ places
  image : ∀ address ∈ action.image?, address.span ∈ places
  environment : ∀ entry ∈ action.environment,
    entry.member.name.span ∈ places

section

variable {places : List Span}

theorem Block.standsAt_toWorkflow {block : Block}
    (placed : Token.AllAt places block.tokens) :
    block.toWorkflow.StandsAt places where
  name := placed _ (by simp [tokens, toWorkflow])
  references _ member := span_of_strings placed member
  event _ isEvent := span_of_string placed isEvent

theorem Block.standsAt_toAction {block : Block}
    (placed : Token.AllAt places block.tokens) :
    block.toAction.StandsAt places where
  name := placed _ (by simp [tokens, toAction])
  references _ member := span_of_strings placed member
  secrets _ member := span_of_strings placed member
  image _ isImage := span_of_string placed isImage
  environment _ member := span_of_environment placed member

/-- All blocks of a document stand at some places. -/
structure Document.StandsAt (places : List Span) (document : Document) :
    Prop where
  workflows : ∀ workflow ∈ document.workflows, workflow.StandsAt places
  actions : ∀ action ∈ document.actions, action.StandsAt places

theorem Document.standsAt_ofTree {tree : SyntaxTree}
    (placed : Token.AllAt places tree.tokens) :
    (Document.ofTree tree).StandsAt places := by
  have atBlocks := SyntaxTree.allAt_block placed
  constructor
  · intro workflow member
    obtain ⟨block, isBlock, rfl⟩ := List.mem_map.mp member
    exact Block.standsAt_toWorkflow
      (atBlocks block (List.mem_of_mem_filter isBlock))
  · intro action member
    obtain ⟨block, isBlock, rfl⟩ := List.mem_map.mp member
    exact Block.standsAt_toAction
      (atBlocks block (List.mem_of_mem_filter isBlock))

/-- Where the reports about a workflow or an action may stand. -/
def DocumentBlock.StandsAt (places : List Span) : DocumentBlock → Prop
  | .workflow declared => declared.StandsAt places
  | .action declared => declared.StandsAt places

theorem Document.StandsAt.block {document : Document}
    (stands : document.StandsAt places) :
    ∀ block ∈ document.blocks, block.StandsAt places := by
  intro block member
  rcases List.mem_append.mp (List.mem_mergeSort.mp member) with
    isWorkflow | isAction
  · obtain ⟨declared, present, rfl⟩ := List.mem_map.mp isWorkflow
    exact stands.workflows declared present
  · obtain ⟨declared, present, rfl⟩ := List.mem_map.mp isAction
    exact stands.actions declared present

theorem DocumentBlock.StandsAt.references {block : DocumentBlock}
    (stands : block.StandsAt places) :
    ∀ entry ∈ block.references, entry.span ∈ places := by
  cases block with
  | workflow declared => exact Workflow.StandsAt.references stands
  | action declared => exact Action.StandsAt.references stands

end

namespace Checks

variable {places : List Span}

theorem allFrom_blockDiagnostics {blocks : List DocumentBlock}
    (placed : ∀ block ∈ blocks, block.StandsAt places) (isNoticed : Bool)
    (seen : List String) (count : Nat) :
    AllFrom 16 17 places (blockDiagnostics isNoticed seen count blocks) := by
  fun_induction blockDiagnostics isNoticed seen count blocks with
  | case1 => exact Diagnostic.allFrom_nil
  | case2 _ _ _ declared others taken inductionHypothesis =>
      obtain ⟨here, behind⟩ := List.forall_mem_cons.mp placed
      exact Diagnostic.allFrom_cons.mpr
        ⟨⟨rfl, Workflow.StandsAt.name here⟩, inductionHypothesis behind⟩
  | case3 _ _ _ declared others free inductionHypothesis =>
      exact inductionHypothesis (List.forall_mem_cons.mp placed).2
  | case4 _ _ _ declared others taken inductionHypothesis =>
      obtain ⟨here, behind⟩ := List.forall_mem_cons.mp placed
      exact Diagnostic.allFrom_cons.mpr
        ⟨⟨rfl, Action.StandsAt.name here⟩, inductionHypothesis behind⟩
  | case5 _ _ _ declared others free excess inductionHypothesis =>
      obtain ⟨here, behind⟩ := List.forall_mem_cons.mp placed
      exact Diagnostic.allFrom_cons.mpr
        ⟨⟨rfl, Action.StandsAt.name here⟩, inductionHypothesis behind⟩
  | case6 _ _ _ declared others free within inductionHypothesis =>
      exact inductionHypothesis (List.forall_mem_cons.mp placed).2

/-- The entry that closes a cycle is one of those of an action. -/
theorem allFrom_dependencies {document : Document}
    (stands : document.StandsAt places) (isNoticed : Bool) :
    AllFrom 18 18 places (dependencies isNoticed document) := by
  unfold dependencies
  split
  · exact Diagnostic.allFrom_nil
  · split
    · rename_i entry found
      obtain ⟨-, owner, counts, member, -⟩ :=
        closesCycle_of_cycleEntryFrom (List.Subset.refl _) found
      have atOwner := stands.actions owner (List.mem_of_find?_eq_some counts)
      exact Diagnostic.allFrom_singleton rfl
        (atOwner.references entry member)
    · exact Diagnostic.allFrom_nil

theorem allFrom_referenceDiagnostics {references : List StringValue}
    (placed : ∀ entry ∈ references, entry.span ∈ places)
    (declared seen : List String) :
    AllFrom 19 22 places
      (referenceDiagnostics declared seen references) := by
  induction references generalizing seen with
  | nil => exact Diagnostic.allFrom_nil
  | cons reference others inductionHypothesis =>
      rw [List.forall_mem_cons] at placed
      simp only [referenceDiagnostics, Diagnostic.allFrom_append]
      refine ⟨⟨?_, ?_⟩, inductionHypothesis placed.2 _⟩
      · exact Diagnostic.allFrom_ite Diagnostic.allFrom_nil
          (Diagnostic.allFrom_singleton rfl placed.1)
      · exact Diagnostic.allFrom_ite
          (Diagnostic.allFrom_singleton rfl placed.1) Diagnostic.allFrom_nil

theorem allFrom_secretDiagnostics {secrets : List StringValue}
    (placed : ∀ entry ∈ secrets, entry.span ∈ places) (isNoticed : Bool)
    (known seen : List String) :
    AllFrom 20 21 places
      (secretDiagnostics isNoticed known seen secrets) := by
  induction secrets generalizing isNoticed known seen with
  | nil => exact Diagnostic.allFrom_nil
  | cons secret others inductionHypothesis =>
      rw [List.forall_mem_cons] at placed
      simp only [secretDiagnostics, Diagnostic.allFrom_append]
      refine ⟨⟨?_, ?_⟩, inductionHypothesis placed.2 _ _ _⟩
      · exact Diagnostic.allFrom_ite
          (Diagnostic.allFrom_singleton rfl placed.1) Diagnostic.allFrom_nil
      · exact Diagnostic.allFrom_ite
          (Diagnostic.allFrom_singleton rfl placed.1) Diagnostic.allFrom_nil

theorem allFrom_secretListDiagnostics {lists : List (List StringValue)}
    (placed : ∀ secrets ∈ lists, ∀ entry ∈ secrets, entry.span ∈ places)
    (isNoticed : Bool) (known : List String) :
    AllFrom 20 21 places (secretListDiagnostics isNoticed known lists) := by
  induction lists generalizing isNoticed known with
  | nil => exact Diagnostic.allFrom_nil
  | cons secrets others inductionHypothesis =>
      rw [List.forall_mem_cons] at placed
      exact Diagnostic.allFrom_append.mpr
        ⟨allFrom_secretDiagnostics placed.1 _ _ _,
          inductionHypothesis placed.2 _ _⟩

theorem allFrom_values {document : Document}
    (stands : document.StandsAt places) :
    AllFrom 23 25 places (values document) := by
  refine Diagnostic.allFrom_append.mpr
    ⟨Diagnostic.allFrom_flatMap fun workflow member => ?_,
      Diagnostic.allFrom_flatMap fun action member => ?_⟩
  · have atWorkflow := stands.workflows workflow member
    unfold eventDiagnostics
    split
    · exact Diagnostic.allFrom_nil
    · rename_i event isEvent
      exact Diagnostic.allFrom_ite Diagnostic.allFrom_nil
        (Diagnostic.allFrom_singleton rfl (atWorkflow.event event isEvent))
  · have atAction := stands.actions action member
    refine Diagnostic.allFrom_append.mpr ⟨?_, ?_⟩
    · unfold addressDiagnostics
      split
      · exact Diagnostic.allFrom_nil
      · rename_i address isImage
        exact Diagnostic.allFrom_ite Diagnostic.allFrom_nil
          (Diagnostic.allFrom_singleton rfl (atAction.image address isImage))
    · refine Diagnostic.allFrom_map fun entry isReserved => ?_
      exact ⟨rfl, atAction.environment entry
        (List.mem_of_mem_filter isReserved)⟩

end Checks

/-- The numbers of the problems that a check finds. -/
def Check.lowest : Check → Nat
  | .blocks => 16
  | .dependencies => 18
  | .references => 19
  | .secrets => 20
  | .values => 23

def Check.highest : Check → Nat
  | .blocks => 17
  | .dependencies => 18
  | .references => 22
  | .secrets => 21
  | .values => 25

/-- A check reports its own problems, at tokens of the tree. -/
theorem Check.allFrom_diagnostics {places : List Span} {document : Document}
    (stands : document.StandsAt places) (notices : Notices) (check : Check) :
    AllFrom check.lowest check.highest places
      (check.diagnostics notices document) := by
  cases check with
  | blocks => exact Checks.allFrom_blockDiagnostics stands.block _ _ _
  | dependencies => exact Checks.allFrom_dependencies stands _
  | references =>
      refine Diagnostic.allFrom_flatMap fun block member => ?_
      exact Checks.allFrom_referenceDiagnostics
        (stands.block block member).references _ _
  | secrets =>
      refine Checks.allFrom_secretListDiagnostics ?_ _ _
      intro secrets member
      obtain ⟨action, isAction, rfl⟩ := List.mem_map.mp member
      exact (stands.actions action isAction).secrets
  | values => exact Checks.allFrom_values stands

theorem Document.allFrom_checkDiagnostics {places : List Span}
    {document : Document} (stands : document.StandsAt places) :
    AllFrom 16 25 places document.checkDiagnostics := by
  refine Diagnostic.allFrom_flatMap fun check _ => ?_
  refine (check.allFrom_diagnostics stands Notices.none).mono ?_ ?_
  · cases check <;> decide
  · cases check <;> decide

end WorkflowLang
