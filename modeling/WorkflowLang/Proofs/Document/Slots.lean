import WorkflowLang.Proofs.Compilation.Reports
import WorkflowLang.Proofs.Document.Marks

/-!
# The slots of a block

Binding reads a block from front to back and keeps the first property of each key,
and an object the same way for its names.  Both are said through the marks of a list,
which tell for each item whether an earlier one has its key.  So every property either
fills its slot or is reported at its key and left out (`Parse.isBound`).
-/

namespace WorkflowLang

namespace EnvironmentVariable

theorem firstOfName_eq (seen : List String)
    (entries : List EnvironmentVariable) :
    firstOfName seen entries = unmarked (markAmong seen name entries) := by
  fun_induction firstOfName seen entries with
  | case1 => rfl
  | case2 seen entry others known inductionHypothesis =>
      rw [markAmong_known (List.contains_iff_mem.mp known),
        inductionHypothesis]
      rfl
  | case3 seen entry others fresh inductionHypothesis =>
      have unseen : entry.name ∉ seen := by simpa using fresh
      rw [markAmong_fresh unseen, inductionHypothesis]
      rfl

/-- The report about a variable whose name was seen before. -/
def repetition (entry : EnvironmentVariable) : Diagnostic :=
  ⟨.duplicateKey entry.name, entry.member.name.span⟩

theorem duplicateDiagnostics_eq (seen : List String)
    (entries : List EnvironmentVariable) :
    duplicateDiagnostics seen entries =
      (marked (markAmong seen name entries)).map repetition := by
  fun_induction duplicateDiagnostics seen entries with
  | case1 => rfl
  | case2 seen entry others known inductionHypothesis =>
      rw [markAmong_known (List.contains_iff_mem.mp known),
        inductionHypothesis]
      rfl
  | case3 seen entry others fresh inductionHypothesis =>
      have unseen : entry.name ∉ seen := by simpa using fresh
      rw [markAmong_fresh unseen, inductionHypothesis]
      rfl

end EnvironmentVariable

/-- The variable a member with a name and a value defines. -/
def ObjectMember.toVariable (member : ObjectMember) : EnvironmentVariable :=
  ⟨member.name.text, ⟨Text.unquote member.value.text, member.value⟩, member⟩

namespace PropertyValue

/-- The variables that the members with a value define. -/
def definedVariables (value : PropertyValue) : List EnvironmentVariable :=
  (value.objectMembers.filter fun member => !member.value.isMissing).map
    ObjectMember.toVariable

theorem members_eq {value : PropertyValue}
    (named : ∀ member ∈ value.objectMembers, member.name.isMissing = false) :
    value.members = value.definedVariables := by
  cases value with
  | string _ => rfl
  | array _ _ _ => rfl
  | object openBracket members closeBracket =>
      rw [definedVariables, PropertyValue.members, objectMembers,
        ← List.filterMap_eq_map, List.filterMap_filter]
      refine List.filterMap_congr fun member isMember => ?_
      have present : member.name.isMissing = false := named member isMember
      cases absent : member.value.isMissing with
      | true => simp [EnvironmentVariable.ofMember?, StringValue.ofToken?, absent]
      | false =>
          simp [EnvironmentVariable.ofMember?, StringValue.ofToken?, absent,
            present, ObjectMember.toVariable]

end PropertyValue

def Property.keyKind (property : Property) : TokenKind := property.key.kind

namespace Block

/-- What is reported about a property of a block of some kind.  It is reported at
its key if it is illegal or repeated; else its value is looked at. -/
def reportsAbout (kind : BlockKind) (place : Property × Bool) :
    List Diagnostic :=
  let key := place.1.key
  if place.1.keyKind ∉ kind.properties then
    [⟨.invalidProperty key.text kind, key.span⟩]
  else if place.2 then [⟨.propertyAlreadyDefined key.text, key.span⟩]
  else place.1.valueDiagnostics

/-- The properties of a block with whether an earlier one has the same key. -/
def markedProperties (block : Block) : List (Property × Bool) :=
  markRepeated Property.keyKind block.properties

theorem propertyDiagnostics_eq (kind : BlockKind) (seen : List TokenKind)
    (properties : List Property) :
    ∀ other : List TokenKind,
      (∀ key ∈ kind.properties, key ∈ seen ↔ key ∈ other) →
        propertyDiagnostics kind seen properties =
          (markAmong other Property.keyKind properties).flatMap
            (reportsAbout kind) := by
  fun_induction propertyDiagnostics kind seen properties with
  | case1 => exact fun _ _ => rfl
  | case2 seen property others key invalid inductionHypothesis =>
      intro other same
      have illegal : property.keyKind ∉ kind.properties := by
        simpa [Property.keyKind] using invalid
      have sameBehind : ∀ found ∈ kind.properties,
          found ∈ seen ↔ found ∈ property.keyKind :: other := by
        intro found legal
        have differ : found ≠ property.keyKind :=
          fun isKey => illegal (isKey ▸ legal)
        simp [same found legal, differ]
      rw [markAmong_cons, List.flatMap_cons, inductionHypothesis _ sameBehind]
      simp [reportsAbout, illegal, key]
  | case3 seen property others key valid defined inductionHypothesis =>
      intro other same
      have legal : property.keyKind ∈ kind.properties := by
        simpa [Property.keyKind] using valid
      have known : property.keyKind ∈ other :=
        (same _ legal).mp (List.contains_iff_mem.mp defined)
      rw [markAmong_known known, List.flatMap_cons, inductionHypothesis _ same]
      simp [reportsAbout, legal, key]
  | case4 seen property others key valid fresh inductionHypothesis =>
      intro other same
      have legal : property.keyKind ∈ kind.properties := by
        simpa [Property.keyKind] using valid
      have unseen : property.keyKind ∉ other := fun known =>
        fresh (List.contains_iff_mem.mpr ((same _ legal).mpr known))
      have sameBehind : ∀ found ∈ kind.properties,
          found ∈ key.kind :: seen ↔ found ∈ property.keyKind :: other := by
        intro found isLegal
        simp only [List.mem_cons, same found isLegal]
        rfl
      rw [markAmong_fresh unseen, List.flatMap_cons,
        inductionHypothesis _ sameBehind]
      simp [reportsAbout, legal]

/-- The report that the property a block has to define is not there. -/
def requiredReports (block : Block) : List Diagnostic :=
  if ∃ property ∈ block.properties,
      property.keyKind = block.kind.requiredProperty then []
  else [⟨.propertyMustBeDefined block.kind.requiredProperty block.kind,
    block.keyword.span⟩]

/-- The reports about a block: those about its properties, one after the other,
then the one about the required property. -/
def reports (block : Block) : List Diagnostic :=
  block.markedProperties.flatMap (reportsAbout block.kind) ++
    block.requiredReports

theorem diagnostics_eq_reports (block : Block) :
    block.diagnostics = block.reports := by
  have properties := propertyDiagnostics_eq block.kind [] block.properties []
    fun _ _ => Iff.rfl
  rw [markAmong_nil] at properties
  have required : block.requiredDiagnostics = block.requiredReports := by
    unfold requiredDiagnostics requiredReports
    cases found : block.property? block.kind.requiredProperty with
    | none =>
        have absent := List.find?_eq_none.mp found
        rw [if_pos Option.isNone_none, if_neg]
        rintro ⟨property, isProperty, isKey⟩
        exact absent property isProperty (beq_iff_eq.mpr isKey)
    | some property =>
        obtain ⟨isProperty, isKey⟩ := property?_eq_some found
        rw [if_neg (by simp), if_pos ⟨property, isProperty, isKey⟩]
  rw [diagnostics, properties, required]
  rfl

/-- A property with a key such that no earlier one has the same key. -/
def FirstWith (block : Block) (key : TokenKind) (property : Property) :
    Prop :=
  property.keyKind = key ∧ ∃ before after,
    block.properties = before ++ property :: after ∧
      ∀ earlier ∈ before, earlier.keyKind ≠ key

/-- A slot is filled from the first property with its key, if there is one. -/
structure Fills {Value : Type} (block : Block) (key : TokenKind)
    (read : PropertyValue → Value) (slot : Option (Definition Value)) :
    Prop where
  eq_none_iff : slot = none ↔
    ∀ property ∈ block.properties, property.keyKind ≠ key
  eq_some : ∀ definition, slot = some definition →
    block.FirstWith key definition.property ∧
      definition.value = read definition.property.value

theorem fills_slot {Value : Type} (block : Block) (key : TokenKind)
    (read : PropertyValue → Value) :
    block.Fills key read (block.slot key read) where
  eq_none_iff := by
    rw [slot, Option.map_eq_none_iff, property?, List.find?_eq_none]
    simp [Property.keyKind]
  eq_some definition filled := by
    obtain ⟨property, found, rfl⟩ := Option.map_eq_some_iff.mp filled
    obtain ⟨isKey, before, after, properties, others⟩ :=
      List.find?_eq_some_iff_append.mp found
    refine ⟨⟨beq_iff_eq.mp isKey, before, after, properties,
      fun earlier isEarlier => ?_⟩, rfl⟩
    simpa [Property.keyKind] using others earlier isEarlier

/-- The workflow that a block means. -/
structure BindsWorkflow (block : Block) (workflow : Workflow) : Prop where
  block_eq : workflow.block = block
  name_eq : workflow.name = Text.unquote block.name.text
  on : block.Fills .on PropertyValue.string? workflow.on
  resolves : block.Fills .resolves PropertyValue.strings workflow.resolves

/-- The action that a block means. -/
structure BindsAction (block : Block) (action : Action) : Prop where
  block_eq : action.block = block
  name_eq : action.name = Text.unquote block.name.text
  uses : block.Fills .uses PropertyValue.string? action.uses
  needs : block.Fills .needs PropertyValue.strings action.needs
  runs : block.Fills .runs PropertyValue.strings action.runs
  args : block.Fills .args PropertyValue.strings action.args
  env : block.Fills .env PropertyValue.environment action.env
  secrets : block.Fills .secrets PropertyValue.strings action.secrets

theorem bindsWorkflow (block : Block) :
    block.BindsWorkflow block.toWorkflow where
  block_eq := rfl
  name_eq := rfl
  on := block.fills_slot _ _
  resolves := block.fills_slot _ _

theorem bindsAction (block : Block) : block.BindsAction block.toAction where
  block_eq := rfl
  name_eq := rfl
  uses := block.fills_slot _ _
  needs := block.fills_slot _ _
  runs := block.fills_slot _ _
  args := block.fills_slot _ _
  env := block.fills_slot _ _
  secrets := block.fills_slot _ _

/-- A property behind some others that fills no slot of a block: it is illegal or
repeated. -/
def IsFurther (kind : BlockKind) (before : List Property)
    (property : Property) : Prop :=
  property.keyKind ∉ kind.properties ∨
    ∃ earlier ∈ before, earlier.keyKind = property.keyKind

/-- With other properties a block means the same. -/
def MeansSameWith (block : Block) (properties : List Property) : Prop :=
  let changed := { block with properties := properties }
  match block.kind with
  | .workflow =>
      changed.toWorkflow = { block.toWorkflow with block := changed }
  | .action => changed.toAction = { block.toAction with block := changed }

variable {block : Block} {before after : List Property} {property : Property}

theorem slot_of_further {Value : Type}
    (properties : block.properties = before ++ property :: after)
    (further : IsFurther block.kind before property) {key : TokenKind}
    (legal : key ∈ block.kind.properties) (read : PropertyValue → Value) :
    { block with properties := before ++ after }.slot key read =
      block.slot key read := by
  have sameFirst :
      (before ++ after).find? (fun other => other.keyKind == key) =
        (before ++ property :: after).find? fun other =>
          other.keyKind == key := by
    rw [List.find?_append, List.find?_append]
    by_cases isKey : property.keyKind = key
    · obtain ⟨earlier, isEarlier, sameKey⟩ :=
        further.resolve_left (not_not_intro (isKey ▸ legal))
      have found : (before.find? fun other =>
          other.keyKind == key).isSome = true :=
        List.find?_isSome.mpr
          ⟨earlier, isEarlier, beq_iff_eq.mpr (sameKey.trans isKey)⟩
      rw [Option.or_of_isSome found, Option.or_of_isSome found]
    · rw [List.find?_cons_of_neg (by simpa using isKey)]
  unfold slot property?
  rw [properties]
  exact congrArg (Option.map _) sameFirst

/-- A property that fills no slot has no effect. -/
theorem meansSame_of_further
    (properties : block.properties = before ++ property :: after)
    (further : IsFurther block.kind before property) :
    block.MeansSameWith (before ++ after) := by
  have same {Value : Type} {key : TokenKind}
      (legal : key ∈ block.kind.properties) (read : PropertyValue → Value) :=
    slot_of_further properties further legal read
  unfold MeansSameWith
  cases kind : block.kind with
  | workflow =>
      simp only [kind, BlockKind.properties] at same
      dsimp only [toWorkflow]
      rw [same (by simp), same (by simp)]
  | action =>
      simp only [kind, BlockKind.properties] at same
      dsimp only [toAction]
      rw [same (by simp), same (by simp), same (by simp), same (by simp),
        same (by simp), same (by simp)]

theorem filter_reports (block : Block) :
    (block.reports.filter fun diagnostic =>
      diagnostic.problem.isNumbered 9 15) = block.reports := by
  rw [← diagnostics_eq_reports]
  exact (allFrom_diagnostics
    (Token.allAt_self block.tokens)).filter_isNumbered_eq_self
      (by decide) (by decide)

/-- The reports about versions have other numbers than those about blocks. -/
theorem filter_listDiagnostics (version : Option VersionStatement)
    (blocks : List Block) :
    ((listDiagnostics version blocks).filter fun diagnostic =>
        diagnostic.problem.isNumbered 9 15) =
      blocks.flatMap reports := by
  induction blocks generalizing version with
  | nil => rfl
  | cons block others inductionHypothesis =>
      have inOrder (version : Option VersionStatement) :
          ((block.diagnostics ++ listDiagnostics version others).filter
              fun diagnostic => diagnostic.problem.isNumbered 9 15) =
            block.reports ++ others.flatMap reports := by
        rw [List.filter_append, inductionHypothesis, diagnostics_eq_reports,
          filter_reports]
      cases version with
      | none => exact inOrder none
      | some statement =>
          rw [listDiagnostics]
          split
          · rw [List.filter_cons_of_neg
              (by simp [Problem.isNumbered, Problem.code])]
            exact inOrder none
          · exact inOrder (some statement)

end Block

/-- The reports about blocks are those of one block after the other. -/
theorem SyntaxTree.filter_bindingDiagnostics (tree : SyntaxTree) :
    (tree.bindingDiagnostics.filter fun diagnostic =>
        diagnostic.problem.isNumbered 9 15) =
      tree.blocks.flatMap Block.reports := by
  have aboutVersions := VersionStatement.allFrom_listDiagnostics
    (allAt_version (Token.allAt_self tree.tokens))
  rw [bindingDiagnostics, List.filter_append, Block.filter_listDiagnostics,
    aboutVersions.filter_isNumbered_eq_nil (by decide), List.nil_append]

/-- Binding accounts for every property of a tree once. -/
structure SyntaxTree.IsBound (tree : SyntaxTree) : Prop where
  workflows : List.Forall₂ Block.BindsWorkflow
    (tree.blocks.filter fun block => block.kind == .workflow)
    (Document.ofTree tree).workflows
  actions : List.Forall₂ Block.BindsAction
    (tree.blocks.filter fun block => block.kind == .action)
    (Document.ofTree tree).actions
  /-- The reports about blocks are those of one block after the other. -/
  reports_eq : (tree.bindingDiagnostics.filter fun diagnostic =>
      diagnostic.problem.isNumbered 9 15) = tree.blocks.flatMap Block.reports
  meansSame : ∀ block ∈ tree.blocks, ∀ before property after,
    block.properties = before ++ property :: after →
      Block.IsFurther block.kind before property →
        block.MeansSameWith (before ++ after)
  environment_eq : ∀ block ∈ tree.blocks, ∀ property ∈ block.properties,
    property.value.environment =
      unmarked (markRepeated EnvironmentVariable.name
        property.value.definedVariables)
  repetitions_eq : ∀ block ∈ tree.blocks, ∀ property ∈ block.properties,
    property.keyKind = .env →
      ∀ openBracket members closeBracket,
        property.value = .object openBracket members closeBracket →
          property.valueDiagnostics =
            (marked (markRepeated EnvironmentVariable.name
              property.value.definedVariables)).map
                EnvironmentVariable.repetition

/-- The members of a parsed object have names. -/
theorem Parse.members_eq {tokens : List Token} {block : Block}
    (isBlock : block ∈ (ofTokens tokens).tree.blocks) {property : Property}
    (isProperty : property ∈ block.properties) :
    property.value.members = property.value.definedVariables := by
  refine PropertyValue.members_eq fun member isMember => ?_
  rw [Token.isMissing, isIdentifier_name isBlock isProperty isMember]
  rfl

/-- Every block of a tree means one workflow or action, whose slots hold the first
property of each key.  Each other property is reported once, at its key, and has no
effect; an object of variables treats its names alike. -/
theorem Parse.isBound (tokens : List Token) :
    (ofTokens tokens).tree.IsBound := by
  constructor
  case workflows =>
    exact List.forall₂_map_right_iff.mpr
      (List.forall₂_same.mpr fun block _ => block.bindsWorkflow)
  case actions =>
    exact List.forall₂_map_right_iff.mpr
      (List.forall₂_same.mpr fun block _ => block.bindsAction)
  case reports_eq =>
    exact SyntaxTree.filter_bindingDiagnostics _
  case meansSame =>
    exact fun _ _ _ _ _ => Block.meansSame_of_further
  case environment_eq =>
    intro block isBlock property isProperty
    rw [PropertyValue.environment, EnvironmentVariable.firstOfName_eq,
      markAmong_nil, members_eq isBlock isProperty]
  case repetitions_eq =>
    intro block isBlock property isProperty isKey openBracket members
      closeBracket isObject
    rw [← members_eq isBlock isProperty, ← markAmong_nil,
      ← EnvironmentVariable.duplicateDiagnostics_eq]
    have isEnvironment : property.key.kind = .env := isKey
    simp [Property.valueDiagnostics, isEnvironment, isObject]

end WorkflowLang
