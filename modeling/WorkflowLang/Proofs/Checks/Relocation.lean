import WorkflowLang.Checks
import WorkflowLang.Proofs.Document.Mapping

/-!
# What is wrong, wherever it stands

Binding and the checks read kinds, texts and the order of tokens.  When the tokens
of a document are moved, they find the same problems in the same order, at other
places.  One rule is an exception: whether a version comes too late is decided by
lines (`Block.IsAbove`).
-/

namespace WorkflowLang

/-- The problems of some reports, without their places. -/
def Diagnostic.problems (diagnostics : List Diagnostic) : List Problem :=
  diagnostics.map Diagnostic.problem

namespace Diagnostic

@[simp] theorem problems_nil : problems [] = [] := rfl

@[simp] theorem problems_cons (diagnostic : Diagnostic)
    (others : List Diagnostic) :
    problems (diagnostic :: others) =
      diagnostic.problem :: problems others := rfl

@[simp] theorem problems_append (first second : List Diagnostic) :
    problems (first ++ second) = problems first ++ problems second :=
  List.map_append

@[simp] theorem problems_map {Piece : Type} (report : Piece → Diagnostic)
    (pieces : List Piece) :
    problems (pieces.map report) =
      pieces.map fun piece => (report piece).problem := by
  simp [problems]

theorem problems_flatMap {Piece : Type} (reports : Piece → List Diagnostic)
    (pieces : List Piece) :
    problems (pieces.flatMap reports) =
      pieces.flatMap fun piece => problems (reports piece) :=
  List.map_flatMap

end Diagnostic

open Diagnostic (problems)

section

variable {view : Token → Token} (keeps : Token.KeepsContent view)

/-! ## Binding -/

theorem EnvironmentVariable.problems_duplicateDiagnostics_map
    (seen : List String) (entries : List EnvironmentVariable) :
    problems (duplicateDiagnostics seen (entries.map (mapTokens view))) =
      problems (duplicateDiagnostics seen entries) := by
  induction entries generalizing seen with
  | nil => rfl
  | cons entry others inductionHypothesis =>
      simp only [List.map_cons, duplicateDiagnostics, mapTokens]
      split
      · exact congrArg (_ :: ·) (inductionHypothesis seen)
      · exact inductionHypothesis _

include keeps

theorem Property.problems_valueDiagnostics_mapTokens (property : Property) :
    problems (property.mapTokens view).valueDiagnostics =
      problems property.valueDiagnostics := by
  obtain ⟨key, equal, value⟩ := property
  cases value with
  | string value =>
      simp only [valueDiagnostics, mapTokens, PropertyValue.mapTokens,
        keeps.kind_view]
      split
      · rfl
      · split <;> rfl
  | array openBracket items closeBracket =>
      simp only [valueDiagnostics, mapTokens, PropertyValue.mapTokens,
        keeps.kind_view]
      split
      · rfl
      · split <;> rfl
  | object openBracket members closeBracket =>
      have entries := PropertyValue.members_mapTokens keeps
        (.object openBracket members closeBracket)
      simp only [PropertyValue.mapTokens] at entries
      simp only [valueDiagnostics, mapTokens, PropertyValue.mapTokens,
        keeps.kind_view, entries]
      split
      · rfl
      · split
        · exact EnvironmentVariable.problems_duplicateDiagnostics_map _ _
        · rfl

namespace Block

theorem problems_propertyDiagnostics_map (kind : BlockKind)
    (seen : List TokenKind) (properties : List Property) :
    problems (propertyDiagnostics kind seen
        (properties.map (Property.mapTokens view))) =
      problems (propertyDiagnostics kind seen properties) := by
  induction properties generalizing seen with
  | nil => rfl
  | cons property others inductionHypothesis =>
      simp only [List.map_cons, propertyDiagnostics, Property.mapTokens,
        keeps.kind_view, keeps.text_view]
      split
      · exact congrArg (_ :: ·) (inductionHypothesis _)
      · split
        · exact congrArg (_ :: ·) (inductionHypothesis _)
        · rw [Diagnostic.problems_append, Diagnostic.problems_append,
            inductionHypothesis,
            ← property.problems_valueDiagnostics_mapTokens keeps]
          rfl

/-- A moved block has the problems it had. -/
theorem problems_diagnostics_mapTokens (block : Block) :
    problems (block.mapTokens view).diagnostics =
      problems block.diagnostics := by
  have required : problems (block.mapTokens view).requiredDiagnostics =
      problems block.requiredDiagnostics := by
    have sameKind : (block.mapTokens view).kind = block.kind := rfl
    rw [requiredDiagnostics, requiredDiagnostics, sameKind,
      property?_mapTokens keeps.kind_view, Option.isNone_map]
    split <;> rfl
  rw [diagnostics, diagnostics, Diagnostic.problems_append,
    Diagnostic.problems_append, required]
  exact congrArg (· ++ _)
    (problems_propertyDiagnostics_map keeps block.kind [] block.properties)

end Block

theorem VersionStatement.problems_listDiagnostics_map
    (versions : List VersionStatement) :
    problems (listDiagnostics (versions.map (mapTokens view))) =
      problems (listDiagnostics versions) := by
  cases versions with
  | nil => rfl
  | cons first others =>
      have valued : problems (first.mapTokens view).valueDiagnostics =
          problems first.valueDiagnostics := by
        simp only [valueDiagnostics, mapTokens, keeps.isMissing_view,
          keeps.text_view]
        split
        · rfl
        · split <;> rfl
      rw [List.map_cons, listDiagnostics, listDiagnostics,
        Diagnostic.problems_append, Diagnostic.problems_append, valued]
      simp

end

namespace Block

/-- The first block stands on an earlier line than the version. -/
def IsAbove (version : Option VersionStatement) (blocks : List Block) :
    Prop :=
  ∃ statement ∈ version, ∃ first ∈ blocks.head?,
    first.keyword.span.start.line < statement.keyword.span.start.line

theorem problems_listDiagnostics_none (blocks : List Block) :
    problems (listDiagnostics none blocks) =
      blocks.flatMap fun block => problems block.diagnostics := by
  induction blocks with
  | nil => rfl
  | cons block others inductionHypothesis =>
      simp [listDiagnostics, inductionHypothesis]

/-- A version that comes too late is reported before anything else. -/
theorem problems_listDiagnostics_of_isAbove
    {version : Option VersionStatement} {blocks : List Block}
    (above : IsAbove version blocks) :
    problems (listDiagnostics version blocks) =
      .versionAfterBlock ::
        blocks.flatMap fun block => problems block.diagnostics := by
  obtain ⟨statement, rfl, first, isFirst, isAbove⟩ := above
  obtain ⟨others, rfl⟩ := List.head?_eq_some_iff.mp isFirst
  simp [listDiagnostics, isAbove, problems_listDiagnostics_none]

theorem problems_listDiagnostics_of_not_isAbove
    {version : Option VersionStatement} {blocks : List Block}
    (descend : blocks.Pairwise fun first second =>
      first.keyword.span.start.line ≤ second.keyword.span.start.line)
    (notAbove : ¬IsAbove version blocks) :
    problems (listDiagnostics version blocks) =
      blocks.flatMap fun block => problems block.diagnostics := by
  cases version with
  | none => exact problems_listDiagnostics_none blocks
  | some statement =>
      induction blocks with
      | nil => rfl
      | cons block others inductionHypothesis =>
          obtain ⟨below, descendOthers⟩ := List.pairwise_cons.mp descend
          have early : ¬block.keyword.span.start.line <
              statement.keyword.span.start.line := fun isAbove =>
            notAbove ⟨statement, rfl, block, rfl, isAbove⟩
          -- No later block stands above the version either.
          have othersEarly : ¬IsAbove (some statement) others := by
            rintro ⟨version, ⟨⟩, first, isFirst, isAbove⟩
            have isBelow := below first (List.mem_of_mem_head? isFirst)
            omega
          have behind := inductionHypothesis descendOthers othersEarly
          simp [listDiagnostics, early, behind]

end Block

/-! ## Checks -/

section

variable {view : Token → Token}

theorem Definition.entries_mapStrings
    (definition : Option (Definition (List StringValue))) :
    entries (mapStrings view definition) =
      (entries definition).map (StringValue.mapTokens view) := by
  cases definition <;> rfl

theorem Definition.entries_mapEnvironment
    (definition : Option (Definition (List EnvironmentVariable))) :
    entries (mapEnvironment view definition) =
      (entries definition).map (EnvironmentVariable.mapTokens view) := by
  cases definition <;> rfl

theorem DocumentBlock.references_mapTokens (block : DocumentBlock) :
    (block.mapTokens view).references =
      block.references.map (StringValue.mapTokens view) := by
  cases block with
  | workflow declared => exact Definition.entries_mapStrings declared.resolves
  | action declared => exact Definition.entries_mapStrings declared.needs

theorem Action.secretNames_mapTokens (action : Action) :
    (action.mapTokens view).secretNames =
      action.secretNames.map (StringValue.mapTokens view) :=
  Definition.entries_mapStrings action.secrets

theorem Workflow.event?_mapTokens (workflow : Workflow) :
    (workflow.mapTokens view).event? =
      workflow.event?.map (StringValue.mapTokens view) := by
  obtain ⟨_, on, _, _⟩ := workflow
  cases on <;> rfl

theorem Action.image?_mapTokens (action : Action) :
    (action.mapTokens view).image? =
      action.image?.map (StringValue.mapTokens view) := by
  obtain ⟨_, uses, _, _, _, _, _, _⟩ := action
  cases uses <;> rfl

namespace Checks

theorem problems_blockDiagnostics_map (isNoticed : Bool)
    (seen : List String) (count : Nat) (blocks : List DocumentBlock) :
    problems (blockDiagnostics isNoticed seen count
        (blocks.map (DocumentBlock.mapTokens view))) =
      problems (blockDiagnostics isNoticed seen count blocks) := by
  induction blocks generalizing isNoticed seen count with
  | nil => rfl
  | cons block others inductionHypothesis =>
      cases block with
      | workflow declared =>
          simp only [List.map_cons, DocumentBlock.mapTokens,
            blockDiagnostics, Workflow.mapTokens]
          split
          · exact congrArg (_ :: ·) (inductionHypothesis _ _ _)
          · exact inductionHypothesis _ _ _
      | action declared =>
          simp only [List.map_cons, DocumentBlock.mapTokens,
            blockDiagnostics, Action.mapTokens]
          split
          · exact congrArg (_ :: ·) (inductionHypothesis _ _ _)
          · split
            · exact congrArg (_ :: ·) (inductionHypothesis _ _ _)
            · exact inductionHypothesis _ _ _

theorem problems_referenceDiagnostics_map (declared seen : List String)
    (references : List StringValue) :
    problems (referenceDiagnostics declared seen
        (references.map (StringValue.mapTokens view))) =
      problems (referenceDiagnostics declared seen references) := by
  induction references generalizing seen with
  | nil => rfl
  | cons reference others inductionHypothesis =>
      simp only [List.map_cons, referenceDiagnostics, StringValue.mapTokens,
        Diagnostic.problems_append, inductionHypothesis]
      congr 2
      · split <;> rfl
      · split <;> rfl

theorem problems_secretDiagnostics_map (isNoticed : Bool)
    (known seen : List String) (secrets : List StringValue) :
    problems (secretDiagnostics isNoticed known seen
        (secrets.map (StringValue.mapTokens view))) =
      problems (secretDiagnostics isNoticed known seen secrets) := by
  induction secrets generalizing isNoticed known seen with
  | nil => rfl
  | cons secret others inductionHypothesis =>
      simp only [List.map_cons, secretDiagnostics, StringValue.mapTokens,
        Diagnostic.problems_append, inductionHypothesis]
      congr 2
      · split <;> rfl
      · split <;> rfl

theorem problems_references_congr {first second : Document}
    (same : first.mapTokens view = second.mapTokens view)
    (blocks : first.blocks.map (DocumentBlock.mapTokens view) =
      second.blocks.map (DocumentBlock.mapTokens view)) :
    problems (references first) = problems (references second) := by
  have names (document : Document) : document.actions.map Action.name =
      (document.mapTokens view).actions.map Action.name := by
    rw [Document.mapTokens, List.map_map]
    rfl
  have moved (declared : List String) (blocks : List DocumentBlock) :
      (blocks.flatMap fun block =>
          problems (referenceDiagnostics declared [] block.references)) =
        (blocks.map (DocumentBlock.mapTokens view)).flatMap fun block =>
          problems (referenceDiagnostics declared [] block.references) := by
    simp only [List.flatMap_map, DocumentBlock.references_mapTokens,
      problems_referenceDiagnostics_map]
  rw [references, references, Diagnostic.problems_flatMap,
    Diagnostic.problems_flatMap, names first, same, ← names second,
    moved _ first.blocks, blocks, ← moved]

theorem noticesSecrets_eq_contains (diagnostics : List Diagnostic) :
    noticesSecrets diagnostics =
      (problems diagnostics).contains .tooManySecrets := by
  induction diagnostics with
  | nil => rfl
  | cons diagnostic others inductionHypothesis =>
      simp only [noticesSecrets, List.any_cons] at inductionHypothesis ⊢
      rw [inductionHypothesis, Diagnostic.problems_cons, List.contains_cons,
        Bool.beq_comm]

theorem problems_secretListDiagnostics_map (isNoticed : Bool)
    (known : List String) (lists : List (List StringValue)) :
    problems (secretListDiagnostics isNoticed known
        (lists.map (List.map (StringValue.mapTokens view)))) =
      problems (secretListDiagnostics isNoticed known lists) := by
  induction lists generalizing isNoticed known with
  | nil => rfl
  | cons secrets others inductionHypothesis =>
      simp only [List.map_cons, secretListDiagnostics,
        Diagnostic.problems_append, noticesSecrets_eq_contains,
        problems_secretDiagnostics_map, inductionHypothesis, List.foldl_map,
        StringValue.mapTokens]

theorem problems_secrets_mapTokens (isNoticed : Bool)
    (document : Document) :
    problems (secrets isNoticed (document.mapTokens view)) =
      problems (secrets isNoticed document) := by
  have lists : (document.mapTokens view).actions.map Action.secretNames =
      (document.actions.map Action.secretNames).map
        (List.map (StringValue.mapTokens view)) := by
    simp [Document.mapTokens, Action.secretNames_mapTokens]
  rw [secrets, lists, problems_secretListDiagnostics_map, secrets]

theorem problems_values_mapTokens (document : Document) :
    problems (values (document.mapTokens view)) =
      problems (values document) := by
  have event (workflow : Workflow) :
      problems (eventDiagnostics (workflow.mapTokens view)) =
        problems (eventDiagnostics workflow) := by
    rw [eventDiagnostics, eventDiagnostics, Workflow.event?_mapTokens]
    cases workflow.event? with
    | none => rfl
    | some event =>
        simp only [Option.map_some, StringValue.mapTokens]
        split <;> rfl
  have address (action : Action) :
      problems (addressDiagnostics (action.mapTokens view)) =
        problems (addressDiagnostics action) := by
    rw [addressDiagnostics, addressDiagnostics, Action.image?_mapTokens]
    cases action.image? with
    | none => rfl
    | some image =>
        simp only [Option.map_some, StringValue.mapTokens]
        split <;> rfl
  have environment (action : Action) :
      problems (environmentDiagnostics (action.mapTokens view)) =
        problems (environmentDiagnostics action) := by
    rw [environmentDiagnostics, environmentDiagnostics,
      Diagnostic.problems_map, Diagnostic.problems_map, Action.environment,
      Action.mapTokens, Definition.entries_mapEnvironment, List.filter_map,
      List.map_map]
    rfl
  simp only [values, Diagnostic.problems_append, Diagnostic.problems_flatMap,
    Document.mapTokens, List.flatMap_map, event, address, environment]

/-! ### Circular dependencies -/

theorem needs?_mapTokens (document : Document) (name : String) :
    (document.mapTokens view).needs? name =
      (document.needs? name).map (List.map (StringValue.mapTokens view)) := by
  simp [Document.needs?, Document.mapTokens, List.find?_map,
    Function.comp_def, Action.mapTokens, Action.references,
    Definition.entries_mapStrings]

def Frame.mapTokens (view : Token → Token) (frame : Frame) : Frame :=
  ⟨frame.name, frame.remaining.map (StringValue.mapTokens view)⟩

section Search

variable {document : Document} {discovered : List String} {name : String}
  (entry : StringValue) {remaining : List StringValue} {frames : List Frame}

/-- The search goes on to a declared action that it has not seen yet. -/
theorem search_of_declared
    (notOnPath : ¬((⟨name, remaining⟩ :: frames).any fun frame : Frame =>
      frame.name == entry.value) = true)
    (fresh : discovered.contains entry.value = false)
    {needs : List StringValue}
    (declared : document.needs? entry.value = some needs) :
    search document discovered (⟨name, entry :: remaining⟩ :: frames) =
      search document (entry.value :: discovered)
        (⟨entry.value, needs⟩ :: ⟨name, remaining⟩ :: frames) := by
  rw [search, if_neg notOnPath, dif_pos fresh]
  split
  · rename_i undeclared
    rw [declared] at undeclared
    contradiction
  · rename_i others isDeclared
    rw [declared, Option.some.injEq] at isDeclared
    rw [isDeclared]

/-- The search passes over actions that are known or not declared. -/
theorem search_of_passed
    (notOnPath : ¬((⟨name, remaining⟩ :: frames).any fun frame : Frame =>
      frame.name == entry.value) = true)
    (passed : discovered.contains entry.value = false →
      document.needs? entry.value = none) :
    search document discovered (⟨name, entry :: remaining⟩ :: frames) =
      search document discovered (⟨name, remaining⟩ :: frames) := by
  rw [search, if_neg notOnPath]
  split
  · rename_i fresh
    split
    · rfl
    · rename_i declared
      rw [passed fresh] at declared
      contradiction
  · rfl

end Search

/-- The search takes the same way through a moved document. -/
theorem search_mapTokens (document : Document) (discovered : List String)
    (frames : List Frame) :
    search (document.mapTokens view) discovered
        (frames.map (Frame.mapTokens view)) =
      ((search document discovered frames).1.map
          (StringValue.mapTokens view),
        (search document discovered frames).2) := by
  have onPath_eq (name : String) (path : List Frame) :
      ((path.map (Frame.mapTokens view)).any fun frame => frame.name == name) =
        path.any fun frame => frame.name == name := by
    rw [List.any_map]
    rfl
  fun_induction search document discovered frames with
  | case1 discovered => rw [List.map_nil, search]; rfl
  | case2 discovered name frames inductionHypothesis =>
      rw [← inductionHypothesis, List.map_cons]
      exact search.eq_2 ..
  | case3 discovered name entry remaining frames path onPath =>
      rw [← onPath_eq] at onPath
      exact (search.eq_3 ..).trans (if_pos onPath)
  | case4 discovered name entry remaining frames path notOnPath fresh
      undeclared inductionHypothesis =>
      rw [← onPath_eq] at notOnPath
      rw [← inductionHypothesis]
      refine search_of_passed (entry.mapTokens view) notOnPath fun _ => ?_
      rw [needs?_mapTokens, StringValue.mapTokens, undeclared]
      rfl
  | case5 discovered name entry remaining frames path notOnPath fresh needs
      declared inductionHypothesis =>
      rw [← onPath_eq] at notOnPath
      rw [← inductionHypothesis]
      have moved : (document.mapTokens view).needs?
          (entry.mapTokens view).value =
            some (needs.map (StringValue.mapTokens view)) := by
        rw [needs?_mapTokens, StringValue.mapTokens, declared]
        rfl
      exact search_of_declared (entry.mapTokens view) notOnPath fresh moved
  | case6 discovered name entry remaining frames path notOnPath known
      inductionHypothesis =>
      rw [← onPath_eq] at notOnPath
      rw [← inductionHypothesis]
      exact search_of_passed (entry.mapTokens view) notOnPath
        fun fresh => absurd fresh known

theorem cycleEntryFrom_mapTokens (document : Document)
    (discovered : List String) (actions : List Action) :
    cycleEntryFrom (document.mapTokens view) discovered
        (actions.map (Action.mapTokens view)) =
      (cycleEntryFrom document discovered actions).map
        (StringValue.mapTokens view) := by
  induction actions generalizing discovered with
  | nil => rfl
  | cons action others inductionHypothesis =>
      have needed : ((document.mapTokens view).needs? action.name).getD [] =
          ((document.needs? action.name).getD []).map
            (StringValue.mapTokens view) := by
        rw [needs?_mapTokens]
        cases document.needs? action.name <;> rfl
      have walk := @search_mapTokens view document (action.name :: discovered)
        [⟨action.name, (document.needs? action.name).getD []⟩]
      simp only [List.map_cons, List.map_nil, Frame.mapTokens] at walk
      simp only [List.map_cons, cycleEntryFrom, Action.mapTokens, needed, walk]
      split
      · exact inductionHypothesis discovered
      · cases (search document (action.name :: discovered)
          [⟨action.name, (document.needs? action.name).getD []⟩]).1 with
        | none => exact inductionHypothesis _
        | some entry => rfl

theorem problems_dependencies_mapTokens (isNoticed : Bool)
    (document : Document) :
    problems (dependencies isNoticed (document.mapTokens view)) =
      problems (dependencies isNoticed document) := by
  have entry : cycleEntry? (document.mapTokens view) =
      StringValue.mapTokens view <$> cycleEntry? document :=
    cycleEntryFrom_mapTokens document [] document.actions
  rw [dependencies, dependencies, entry]
  cases isNoticed with
  | true => rfl
  | false => cases cycleEntry? document <;> rfl

end Checks

/-- A check finds the same problems in documents that differ in places only and
have their blocks in the same order. -/
theorem Check.problems_diagnostics_congr (notices : Notices)
    {first second : Document}
    (same : first.mapTokens view = second.mapTokens view)
    (blocks : first.blocks.map (DocumentBlock.mapTokens view) =
      second.blocks.map (DocumentBlock.mapTokens view)) (check : Check) :
    problems (check.diagnostics notices first) =
      problems (check.diagnostics notices second) := by
  cases check with
  | blocks =>
      simp only [diagnostics, Checks.blocks]
      rw [← Checks.problems_blockDiagnostics_map, blocks,
        Checks.problems_blockDiagnostics_map]
  | dependencies =>
      simp only [diagnostics]
      rw [← Checks.problems_dependencies_mapTokens, same,
        Checks.problems_dependencies_mapTokens]
  | references =>
      simp only [diagnostics]
      exact Checks.problems_references_congr same blocks
  | secrets =>
      simp only [diagnostics]
      rw [← Checks.problems_secrets_mapTokens, same,
        Checks.problems_secrets_mapTokens]
  | values =>
      simp only [diagnostics]
      rw [← Checks.problems_values_mapTokens, same,
        Checks.problems_values_mapTokens]

theorem Document.problems_checkDiagnostics_congr {first second : Document}
    (same : first.mapTokens view = second.mapTokens view)
    (blocks : first.blocks.map (DocumentBlock.mapTokens view) =
      second.blocks.map (DocumentBlock.mapTokens view)) :
    problems first.checkDiagnostics = problems second.checkDiagnostics := by
  rw [checkDiagnostics, checkDiagnostics, Diagnostic.problems_flatMap,
    Diagnostic.problems_flatMap]
  exact List.flatMap_congr fun check _ =>
    check.problems_diagnostics_congr Notices.none same blocks

end

end WorkflowLang
