import WorkflowLang.Proofs.Compilation.SyntaxErrors
import WorkflowLang.Proofs.Document.Slots
import WorkflowLang.Proofs.Tree.Reach

/-!
# Reports about stand-ins

Parsing has reported what a stand-in stands for, and the stages behind it pass over
stand-ins, with two exceptions.  An `env` without a value is reported to be no object,
and blocks without a name share the empty name.  All reports of these stages that a
stand-in could cause are described (`Compilation.passesOver`).
-/

namespace WorkflowLang

/-- Reports can be picked by their numbers in two steps. -/
theorem Diagnostic.filter_isNumbered_filter {lowest highest first last : Nat}
    (lowestLe : lowest ≤ first) (leHighest : last ≤ highest)
    (diagnostics : List Diagnostic) :
    ((diagnostics.filter fun diagnostic =>
          diagnostic.problem.isNumbered lowest highest).filter
        fun diagnostic => diagnostic.problem.isNumbered first last) =
      diagnostics.filter fun diagnostic =>
        diagnostic.problem.isNumbered first last := by
  rw [List.filter_filter]
  refine List.filter_congr fun diagnostic _ => ?_
  rw [Bool.eq_iff_iff]
  simp only [Problem.isNumbered, Bool.and_eq_true, decide_eq_true_eq]
  omega

/-- The check of blocks is alone in its reports. -/
theorem Document.filter_checkDiagnostics_blocks {places : List Span}
    {document : Document} (stands : document.StandsAt places) :
    (document.checkDiagnostics.filter fun diagnostic =>
        diagnostic.problem.isNumbered 16 17) =
      Checks.blocks false document := by
  have others (check : Check) (behind : 17 < check.lowest) :
      ((check.diagnostics Notices.none document).filter fun diagnostic =>
        diagnostic.problem.isNumbered 16 17) = [] :=
    (check.allFrom_diagnostics stands _).filter_isNumbered_eq_nil
      (Or.inr behind)
  have own : ((Check.blocks.diagnostics Notices.none document).filter
      fun diagnostic => diagnostic.problem.isNumbered 16 17) =
        Checks.blocks false document :=
    (Check.blocks.allFrom_diagnostics stands _).filter_isNumbered_eq_self
      (by decide) (by decide)
  simp only [checkDiagnostics, Check.all, List.flatMap_cons, List.flatMap_nil,
    List.filter_append, List.filter_nil]
  rw [own, others .dependencies (by decide), others .references (by decide),
    others .secrets (by decide), others .values (by decide)]
  simp

namespace Compilation

variable {first last : Nat}

/-- Reports with the numbers of binding are those of binding. -/
theorem filter_binding (text : String) (behind : 6 ≤ first)
    (inFront : last ≤ 15) :
    ((ofText text).diagnostics.filter fun diagnostic =>
        diagnostic.problem.isNumbered first last) =
      (ofText text).tree.bindingDiagnostics.filter fun diagnostic =>
        diagnostic.problem.isNumbered first last := by
  have scanned : Diagnostic.AllSyntactic (Scan.ofText text).diagnostics :=
    Scan.allSyntactic_scanFrom _ _
  have parsed := Parse.allSyntactic_diagnostics (Scan.ofText text).tokens
  have checked := Document.allFrom_checkDiagnostics
    (Document.standsAt_ofTree (Token.allAt_self (ofText text).tree.tokens))
  simp only [ofText] at checked ⊢
  rw [List.filter_append, List.filter_append, List.filter_append,
    scanned.filter_isNumbered_eq_nil behind,
    parsed.filter_isNumbered_eq_nil behind,
    checked.filter_isNumbered_eq_nil (by omega)]
  simp

/-- Reports with the numbers of the check of blocks are those of this check. -/
theorem filter_blocks (text : String) :
    ((ofText text).diagnostics.filter fun diagnostic =>
        diagnostic.problem.isNumbered 16 17) =
      Checks.blocks false (ofText text).document := by
  have scanned : Diagnostic.AllSyntactic (Scan.ofText text).diagnostics :=
    Scan.allSyntactic_scanFrom _ _
  have parsed := Parse.allSyntactic_diagnostics (Scan.ofText text).tokens
  have placed := Token.allAt_self (ofText text).tree.tokens
  have bound := SyntaxTree.allFrom_bindingDiagnostics placed
  have checked := Document.filter_checkDiagnostics_blocks
    (Document.standsAt_ofTree placed)
  simp only [ofText] at bound checked ⊢
  rw [List.filter_append, List.filter_append, List.filter_append,
    scanned.filter_isNumbered_eq_nil (by decide),
    parsed.filter_isNumbered_eq_nil (by decide),
    bound.filter_isNumbered_eq_nil (by decide), checked]
  simp

end Compilation

namespace Checks

/-- The report that the name of a block is taken. -/
def repetition (block : DocumentBlock) : Diagnostic :=
  ⟨.duplicateBlock block.name, block.block.name.span⟩

/-- A block is reported when an earlier one has its name. -/
theorem filter_blockDiagnostics (isNoticed : Bool) (seen : List String)
    (count : Nat) (blocks : List DocumentBlock) :
    ((blockDiagnostics isNoticed seen count blocks).filter fun diagnostic =>
        diagnostic.problem.isNumbered 17 17) =
      (marked (markAmong seen DocumentBlock.name blocks)).map repetition := by
  fun_induction blockDiagnostics isNoticed seen count blocks with
  | case1 => rfl
  | case2 _ seen _ declared others taken inductionHypothesis =>
      have known : (DocumentBlock.workflow declared).name ∈ seen :=
        List.contains_iff_mem.mp taken
      rw [List.filter_cons_of_pos (by rfl), markAmong_known known,
        inductionHypothesis]
      rfl
  | case3 _ seen _ declared others free inductionHypothesis =>
      have unseen : (DocumentBlock.workflow declared).name ∉ seen :=
        fun known => free (List.contains_iff_mem.mpr known)
      rw [markAmong_fresh unseen]
      exact inductionHypothesis
  | case4 _ seen _ declared others taken inductionHypothesis =>
      have known : (DocumentBlock.action declared).name ∈ seen :=
        List.contains_iff_mem.mp taken
      rw [List.filter_cons_of_pos (by rfl), markAmong_known known,
        inductionHypothesis]
      rfl
  | case5 _ seen _ declared others free excess inductionHypothesis =>
      have unseen : (DocumentBlock.action declared).name ∉ seen :=
        fun known => free (List.contains_iff_mem.mpr known)
      rw [List.filter_cons_of_neg (by simp [Problem.isNumbered, Problem.code]),
        markAmong_fresh unseen]
      exact inductionHypothesis
  | case6 _ seen _ declared others free within inductionHypothesis =>
      have unseen : (DocumentBlock.action declared).name ∉ seen :=
        fun known => free (List.contains_iff_mem.mpr known)
      rw [markAmong_fresh unseen]
      exact inductionHypothesis

end Checks

/-- Problems with the value of a property, and with the names in it. -/
def Problem.isAboutValue (problem : Problem) : Bool :=
  problem.isNumbered 9 11 || problem.isNumbered 15 15

/-- A value that is a stand-in. -/
def PropertyValue.isMissing : PropertyValue → Bool
  | .string value => value.isMissing
  | .array _ _ _ => false
  | .object _ _ _ => false

namespace Property

variable {property : Property}

/-- A report about a value stands at the key or at a name in the value. -/
theorem mem_valueDiagnostics {diagnostic : Diagnostic}
    (member : diagnostic ∈ property.valueDiagnostics) :
    (diagnostic.problem.isNumbered 9 11 = true ∧
        diagnostic.span = property.key.span) ∨
      ∃ entry ∈ property.value.members, diagnostic = entry.repetition := by
  have atKey {problem : Problem} (isNumbered : problem.isNumbered 9 11 = true)
      (isReport : diagnostic ∈ [⟨problem, property.key.span⟩]) :
      diagnostic.problem.isNumbered 9 11 = true ∧
        diagnostic.span = property.key.span := by
    rw [List.mem_singleton.mp isReport]
    exact ⟨isNumbered, rfl⟩
  unfold valueDiagnostics at member
  dsimp only at member
  split at member
  · split at member
    · simp at member
    · exact Or.inl (atKey rfl member)
  · split at member
    · split at member
      · rw [EnvironmentVariable.duplicateDiagnostics_eq, markAmong_nil] at member
        obtain ⟨entry, isEntry, rfl⟩ := List.mem_map.mp member
        exact Or.inr ⟨entry, mem_of_mem_marked isEntry, rfl⟩
      · exact Or.inl (atKey rfl member)
    · split at member
      · exact Or.inl (atKey rfl member)
      · simp at member

/-- A stand-in is reported to be no object, but to be nothing else. -/
theorem valueDiagnostics_of_isMissing
    (absent : property.value.isMissing = true) :
    property.valueDiagnostics =
      if property.keyKind = .env then [⟨.valueIsNotObject, property.key.span⟩]
      else [] := by
  unfold valueDiagnostics keyKind
  cases value : property.value with
  | string token =>
      dsimp only
      split
      · rename_i isText
        rcases isText with isKind | isKind <;> simp [isKind]
      · rfl
  | array _ _ _ =>
      rw [value] at absent
      contradiction
  | object _ _ _ =>
      rw [value] at absent
      contradiction

end Property

namespace Block

variable {block : Block}

theorem firstWith_iff {property : Property} :
    block.FirstWith property.keyKind property ↔
      (property, false) ∈ block.markedProperties := by
  rw [markedProperties, mem_markRepeated_iff, FirstWith]
  simp

/-- Values are looked at in the first property of each legal key. -/
theorem mem_reports_iff {diagnostic : Diagnostic}
    (aboutValue : diagnostic.problem.isAboutValue = true) :
    diagnostic ∈ block.reports ↔ ∃ property,
      property.keyKind ∈ block.kind.properties ∧
        block.FirstWith property.keyKind property ∧
          diagnostic ∈ property.valueDiagnostics := by
  have otherProblem {problem : Problem} {span : Span}
      (other : problem.isAboutValue = false) :
      diagnostic ∉ [⟨problem, span⟩] := by
    intro isReport
    rw [List.mem_singleton.mp isReport, other] at aboutValue
    contradiction
  constructor
  · intro member
    rcases List.mem_append.mp member with aboutProperty | aboutBlock
    · obtain ⟨⟨property, mark⟩, isPlace, isReport⟩ :=
        List.mem_flatMap.mp aboutProperty
      unfold reportsAbout at isReport
      dsimp only at isReport
      split at isReport
      · exact absurd isReport (otherProblem rfl)
      · rename_i legal
        cases mark with
        | true => exact absurd isReport (otherProblem rfl)
        | false =>
            exact ⟨property, not_not.mp legal, firstWith_iff.mpr isPlace,
              isReport⟩
    · unfold requiredReports at aboutBlock
      split at aboutBlock
      · simp at aboutBlock
      · exact absurd aboutBlock (otherProblem rfl)
  · rintro ⟨property, legal, first, isReport⟩
    refine List.mem_append_left _ (List.mem_flatMap.mpr
      ⟨(property, false), firstWith_iff.mp first, ?_⟩)
    unfold reportsAbout
    dsimp only
    rwa [if_neg (not_not_intro legal), if_neg Bool.false_ne_true]

end Block

theorem PropertyValue.names_sublist (value : PropertyValue) :
    (value.objectMembers.map ObjectMember.name).Sublist value.tokens := by
  cases value with
  | string _ => exact List.nil_sublist _
  | array _ _ _ => exact List.nil_sublist _
  | object openBracket members closeBracket =>
      have inMembers : (members.map ObjectMember.name).Sublist
          (members.flatMap ObjectMember.tokens) := by
        rw [List.map_eq_flatMap]
        refine List.Sublist.flatMap_right _ fun member _ => ?_
        exact List.singleton_sublist.mpr List.mem_cons_self
      exact (inMembers.trans (List.sublist_append_left _ _)).cons _

namespace SyntaxTree

/-- The properties of a tree, each with its block. -/
def properties (tree : SyntaxTree) : List (Block × Property) :=
  tree.blocks.flatMap fun block => block.properties.map fun property =>
    (block, property)

def members (tree : SyntaxTree) : List ObjectMember :=
  tree.properties.flatMap fun place => place.2.value.objectMembers

variable {tree : SyntaxTree}

theorem mem_properties {block : Block} {property : Property} :
    (block, property) ∈ tree.properties ↔
      block ∈ tree.blocks ∧ property ∈ block.properties := by
  simp [properties]

theorem properties_flatMap_sublist (tree : SyntaxTree) :
    (tree.properties.flatMap fun place => place.2.tokens).Sublist
      tree.tokens := by
  rw [properties, List.flatMap_assoc]
  refine List.Sublist.trans (List.Sublist.flatMap_right _ fun block _ => ?_)
    tree.blocks_flatMap_sublist
  rw [List.flatMap_map]
  exact (List.sublist_append_right _ _).trans (List.sublist_append_left _ _)

theorem versions_flatMap_sublist (tree : SyntaxTree) :
    (tree.versions.flatMap VersionStatement.tokens).Sublist tree.tokens := by
  obtain ⟨statements⟩ := tree
  simp only [versions, tokens]
  induction statements with
  | nil => exact List.Sublist.slnil
  | cons statement others inductionHypothesis =>
      cases statement with
      | version version =>
          exact (List.Sublist.refl version.tokens).append inductionHypothesis
      | block block =>
          exact inductionHypothesis.trans (List.sublist_append_right _ _)

theorem keys_sublist (tree : SyntaxTree) :
    (tree.properties.map fun place => place.2.key).Sublist tree.tokens := by
  rw [List.map_eq_flatMap]
  refine List.Sublist.trans (List.Sublist.flatMap_right _ fun place _ => ?_)
    tree.properties_flatMap_sublist
  exact List.singleton_sublist.mpr List.mem_cons_self

theorem names_sublist (tree : SyntaxTree) :
    (tree.members.map ObjectMember.name).Sublist tree.tokens := by
  rw [members, List.map_flatMap]
  refine List.Sublist.trans (List.Sublist.flatMap_right _ fun place _ => ?_)
    tree.properties_flatMap_sublist
  exact place.2.value.names_sublist.trans (List.sublist_append_right _ _)

end SyntaxTree

namespace Compilation

variable {text : String}

/-- Reports about values come from the first property of a legal key. -/
theorem mem_diagnostics_iff {diagnostic : Diagnostic}
    (aboutValue : diagnostic.problem.isAboutValue = true) :
    diagnostic ∈ (ofText text).diagnostics ↔
      ∃ place ∈ (ofText text).tree.properties,
        place.2.keyKind ∈ place.1.kind.properties ∧
          place.1.FirstWith place.2.keyKind place.2 ∧
            diagnostic ∈ place.2.valueDiagnostics := by
  have isNumbered : diagnostic.problem.isNumbered 9 15 = true := by
    simp only [Problem.isAboutValue, Problem.isNumbered, Bool.or_eq_true,
      Bool.and_eq_true, decide_eq_true_eq] at aboutValue ⊢
    omega
  have sameReports := (filter_binding text (by decide) (by decide)).trans
    (ofText text).tree.filter_bindingDiagnostics
  have inBlocks : diagnostic ∈ (ofText text).diagnostics ↔
      diagnostic ∈ (ofText text).tree.blocks.flatMap Block.reports := by
    rw [← sameReports, List.mem_filter, and_iff_left isNumbered]
  rw [inBlocks, List.mem_flatMap]
  constructor
  · rintro ⟨block, isBlock, isReport⟩
    obtain ⟨property, legal, first, reported⟩ :=
      (Block.mem_reports_iff aboutValue).mp isReport
    obtain ⟨-, before, after, properties, -⟩ := id first
    have isProperty : property ∈ block.properties := by simp [properties]
    exact ⟨(block, property), SyntaxTree.mem_properties.mpr
      ⟨isBlock, isProperty⟩, legal, first, reported⟩
  · rintro ⟨⟨block, property⟩, isPlace, legal, first, reported⟩
    exact ⟨block, (SyntaxTree.mem_properties.mp isPlace).1,
      (Block.mem_reports_iff aboutValue).mpr
        ⟨property, legal, first, reported⟩⟩

theorem isMissing_key {place : Block × Property}
    (isPlace : place ∈ (ofText text).tree.properties) :
    place.2.key.isMissing = false := by
  obtain ⟨isBlock, isProperty⟩ := SyntaxTree.mem_properties.mp isPlace
  exact Token.isMissing_of_propertyKeyword (Parse.isKey_key isBlock isProperty)

theorem isMissing_name {member : ObjectMember}
    (isMember : member ∈ (ofText text).tree.members) :
    member.name.isMissing = false := by
  obtain ⟨place, isPlace, inValue⟩ := List.mem_flatMap.mp isMember
  obtain ⟨isBlock, isProperty⟩ := SyntaxTree.mem_properties.mp isPlace
  rw [Token.isMissing, Parse.isIdentifier_name isBlock isProperty inValue]
  rfl

/-- A property is known by the place of its key. -/
theorem eq_of_span_key {place other : Block × Property}
    (isPlace : place ∈ (ofText text).tree.properties)
    (isOther : other ∈ (ofText text).tree.properties)
    (same : place.2.key.span = other.2.key.span) : place = other := by
  have follow := Parse.follow_of_present
    (ofText text).tree.keys_sublist
    (List.forall_mem_map.mpr fun _ => isMissing_key)
  have nodup := follow.nodup_spans
  rw [List.map_map] at nodup
  exact List.inj_on_of_nodup_map nodup isPlace isOther same

/-- A member is known by the place of its name. -/
theorem eq_of_span_name {member other : ObjectMember}
    (isMember : member ∈ (ofText text).tree.members)
    (isOther : other ∈ (ofText text).tree.members)
    (same : member.name.span = other.name.span) : member = other := by
  have follow := Parse.follow_of_present
    (ofText text).tree.names_sublist
    (List.forall_mem_map.mpr fun _ => isMissing_name)
  have nodup := follow.nodup_spans
  rw [List.map_map] at nodup
  exact List.inj_on_of_nodup_map nodup isMember isOther same

/-- The only report about a value that is a stand-in. -/
theorem mem_diagnostics_of_isMissing {block : Block} {property : Property}
    (isPlace : (block, property) ∈ (ofText text).tree.properties)
    (absent : property.value.isMissing = true) {problem : Problem}
    (aboutShape : problem.isNumbered 9 11 = true) :
    ⟨problem, property.key.span⟩ ∈ (ofText text).diagnostics ↔
      problem = .valueIsNotObject ∧ block.kind = .action ∧
        block.FirstWith .env property := by
  have aboutValue : problem.isAboutValue = true := by
    rw [Problem.isAboutValue, aboutShape, Bool.true_or]
  rw [mem_diagnostics_iff aboutValue]
  constructor
  · rintro ⟨other, isOther, legal, first, isReport⟩
    obtain rfl : (block, property) = other := by
      rcases Property.mem_valueDiagnostics isReport with
        ⟨-, atKey⟩ | ⟨entry, -, isRepetition⟩
      · exact eq_of_span_key isPlace isOther atKey
      · have isDuplicate : problem = .duplicateKey entry.name :=
          congrArg Diagnostic.problem isRepetition
        rw [isDuplicate] at aboutShape
        contradiction
    dsimp only at legal first isReport
    rw [Property.valueDiagnostics_of_isMissing absent] at isReport
    split at isReport
    · rename_i isKey
      rw [isKey] at legal first
      refine ⟨congrArg Diagnostic.problem (List.mem_singleton.mp isReport),
        ?_, first⟩
      cases kind : block.kind with
      | action => rfl
      | workflow =>
          rw [kind] at legal
          exact absurd legal (by decide)
    · simp at isReport
  · rintro ⟨rfl, isAction, first⟩
    have isKey : property.keyKind = .env := first.1
    refine ⟨_, isPlace, ?_, ?_, ?_⟩
    · rw [isKey, isAction]
      decide
    · rwa [isKey]
    · rw [Property.valueDiagnostics_of_isMissing absent, if_pos isKey]
      exact List.mem_singleton_self _

/-- A member without a value is not reported for its name. -/
theorem duplicateKey_not_mem {member : ObjectMember}
    (isMember : member ∈ (ofText text).tree.members)
    (absent : member.name.isMissing = true ∨ member.value.isMissing = true)
    (key : String) :
    ⟨.duplicateKey key, member.name.span⟩ ∉ (ofText text).diagnostics := by
  intro isReport
  obtain ⟨place, isPlace, -, -, reported⟩ :=
    (mem_diagnostics_iff rfl).mp isReport
  rcases Property.mem_valueDiagnostics reported with
    ⟨aboutShape, -⟩ | ⟨entry, isEntry, isRepetition⟩
  · contradiction
  · obtain ⟨isBlock, isProperty⟩ := SyntaxTree.mem_properties.mp isPlace
    rw [Parse.members_eq isBlock isProperty] at isEntry
    obtain ⟨other, isDefining, rfl⟩ := List.mem_map.mp isEntry
    obtain ⟨inValue, hasValue⟩ := List.mem_filter.mp isDefining
    have isOther : other ∈ (ofText text).tree.members :=
      List.mem_flatMap.mpr ⟨place, isPlace, inValue⟩
    obtain rfl : member = other := eq_of_span_name isMember isOther
      (congrArg Diagnostic.span isRepetition)
    rcases absent with unnamed | unvalued
    · rw [isMissing_name isMember] at unnamed
      contradiction
    · simp [unvalued] at hasValue

theorem isMissing_keyword_of_mem_versions {version : VersionStatement}
    (isVersion : version ∈ (ofText text).tree.versions) :
    version.keyword.isMissing = false := by
  have isKeyword := List.mem_map_of_mem (f := VersionStatement.keyword)
    isVersion
  have keywords := Parse.keyword_versions (ofText text).tokens
  have picked : version.keyword ∈ (ofText text).tokens.filter
      fun token => token.kind == .version := by
    rw [← keywords]
    exact isKeyword
  have kind : version.keyword.kind = .version :=
    beq_iff_eq.mp (List.mem_filter.mp picked).2
  rw [Token.isMissing, kind]
  rfl

/-- Only the first version can have an integer that is reported. -/
theorem exists_first_of_unrecognizedVersion {found : String} {span : Span}
    (isReport : ⟨.unrecognizedVersion found, span⟩ ∈
      (ofText text).diagnostics) :
    ∃ first others, (ofText text).tree.versions = first :: others ∧
      first.integer.isMissing = false ∧ span = first.integer.span := by
  have inBinding : ⟨.unrecognizedVersion found, span⟩ ∈
      (ofText text).tree.bindingDiagnostics := by
    have picked : ⟨.unrecognizedVersion found, span⟩ ∈
        (ofText text).diagnostics.filter fun diagnostic =>
          diagnostic.problem.isNumbered 7 7 :=
      List.mem_filter.mpr ⟨isReport, rfl⟩
    rw [filter_binding text (by decide) (by decide)] at picked
    exact (List.mem_filter.mp picked).1
  rcases List.mem_append.mp inBinding with aboutVersion | aboutBlock
  · cases versions : (ofText text).tree.versions with
    | nil => simp [versions, VersionStatement.listDiagnostics] at aboutVersion
    | cons first others =>
        rw [versions] at aboutVersion
        rcases List.mem_append.mp aboutVersion with isFirst | isOther
        · unfold VersionStatement.valueDiagnostics at isFirst
          dsimp only at isFirst
          split at isFirst
          · simp at isFirst
          · rename_i present
            refine ⟨first, others, rfl, Bool.eq_false_iff.mpr present, ?_⟩
            split at isFirst
            · simp at isFirst
            · exact congrArg Diagnostic.span (List.mem_singleton.mp isFirst)
        · obtain ⟨other, -, isMultiple⟩ := List.mem_map.mp isOther
          have differ := congrArg Diagnostic.problem isMultiple
          contradiction
  · have placed := Token.allAt_self (ofText text).tree.tokens
    have numbered := Block.allFrom_listDiagnostics
      (fun statement isFirst => SyntaxTree.allAt_version placed statement
        (List.mem_of_head? isFirst) _ List.mem_cons_self)
      (SyntaxTree.allAt_block placed) _ aboutBlock
    exact absurd numbered.isNumbered (by simp [Problem.isNumbered, Problem.code])

/-- A version without an integer is not reported for it. -/
theorem unrecognizedVersion_not_mem {version : VersionStatement}
    (isVersion : version ∈ (ofText text).tree.versions)
    (absent : version.integer.isMissing = true) (found : String) :
    ⟨.unrecognizedVersion found, version.integer.span⟩ ∉
      (ofText text).diagnostics := by
  intro isReport
  obtain ⟨first, others, versions, present, same⟩ :=
    exists_first_of_unrecognizedVersion isReport
  rw [versions] at isVersion
  rcases List.mem_cons.mp isVersion with rfl | isLater
  · rw [present] at absent
    contradiction
  -- A later version stands behind the integer of the first one.
  · have inTree : [first.integer, version.keyword].Sublist
        (ofText text).tree.tokens := by
      have inFirst : [first.integer].Sublist first.tokens :=
        List.singleton_sublist.mpr (by simp [VersionStatement.tokens])
      have inOthers : [version.keyword].Sublist
          (others.flatMap VersionStatement.tokens) :=
        List.singleton_sublist.mpr (List.mem_flatMap.mpr
          ⟨version, isLater, List.mem_cons_self⟩)
      have inVersions := (ofText text).tree.versions_flatMap_sublist
      rw [versions] at inVersions
      exact (inFirst.append inOthers).trans inVersions
    have isKeyword := isMissing_keyword_of_mem_versions
      (versions ▸ isVersion)
    have follow := Parse.follow_of_present inTree (by simp [present, isKeyword])
    have wide := follow.wide first.integer List.mem_cons_self
    have behind := (List.pairwise_pair.mp follow.pairwise).not_start_le wide
    have begins : version.keyword.span.start ≤ version.integer.span.start :=
      (Parse.follow_statements Position.origin text.toList).2
        (.version version)
        (SyntaxTree.mem_of_mem_versions (versions ▸ isVersion)) _
          (by simp [Statement.tokens, VersionStatement.tokens])
    rw [same] at begins
    exact behind begins

/-- What the stages behind parsing report on account of stand-ins. -/
structure PassesOver (compilation : Compilation) : Prop where
  version : ∀ version ∈ compilation.tree.versions,
    version.integer.isMissing = true → ∀ found,
      ⟨.unrecognizedVersion found, version.integer.span⟩ ∉
        compilation.diagnostics
  value : ∀ block ∈ compilation.tree.blocks, ∀ property ∈ block.properties,
    property.value.isMissing = true →
      ⟨.valueIsNotString, property.key.span⟩ ∉ compilation.diagnostics ∧
        ⟨.valueIsNotStringOrArray, property.key.span⟩ ∉
          compilation.diagnostics
  /-- An `env` without a value is not passed over. -/
  object_iff : ∀ block ∈ compilation.tree.blocks,
    ∀ property ∈ block.properties, property.value.isMissing = true →
      (⟨.valueIsNotObject, property.key.span⟩ ∈ compilation.diagnostics ↔
        block.kind = .action ∧ block.FirstWith .env property)
  member : ∀ block ∈ compilation.tree.blocks, ∀ property ∈ block.properties,
    ∀ member ∈ property.value.objectMembers,
      member.name.isMissing = true ∨ member.value.isMissing = true → ∀ key,
        ⟨.duplicateKey key, member.name.span⟩ ∉ compilation.diagnostics
  /-- Blocks without a name are told apart by no name. -/
  name_eq : ∀ declared ∈ compilation.document.blocks,
    declared.block.name.isMissing = true → declared.name = ""
  /-- Every block with the name of an earlier one is reported. -/
  repetitions_eq : (compilation.diagnostics.filter fun diagnostic =>
      diagnostic.problem.isNumbered 17 17) =
    (marked (markRepeated DocumentBlock.name
      compilation.document.blocks)).map Checks.repetition

/-- The stages behind parsing pass over stand-ins, except that the first `env` of an
action is reported when it has no value, and a block without a name when an earlier
block has the empty name, as one without a name has. -/
theorem passesOver (text : String) : (ofText text).PassesOver where
  version _ := unrecognizedVersion_not_mem
  value block isBlock property isProperty absent := by
    have isPlace := SyntaxTree.mem_properties.mpr ⟨isBlock, isProperty⟩
    have onlyObject {problem : Problem}
        (aboutShape : problem.isNumbered 9 11 = true)
        (other : problem ≠ .valueIsNotObject) :
        ⟨problem, property.key.span⟩ ∉ (ofText text).diagnostics :=
      fun isReport => other
        ((mem_diagnostics_of_isMissing isPlace absent aboutShape).mp
          isReport).1
    exact ⟨onlyObject rfl (by decide), onlyObject rfl (by decide)⟩
  object_iff block isBlock property isProperty absent := by
    have isPlace := SyntaxTree.mem_properties.mpr ⟨isBlock, isProperty⟩
    rw [mem_diagnostics_of_isMissing isPlace absent rfl, and_iff_right rfl]
  member block isBlock property isProperty member isMember := by
    have isPlace := SyntaxTree.mem_properties.mpr ⟨isBlock, isProperty⟩
    exact duplicateKey_not_mem
      (List.mem_flatMap.mpr ⟨_, isPlace, isMember⟩)
  name_eq declared isDeclared absent := by
    rw [blocks_eq] at isDeclared
    obtain ⟨block, isBlock, rfl⟩ := List.mem_map.mp isDeclared
    rw [DocumentBlock.block_ofBlock] at absent
    rw [DocumentBlock.name_ofBlock, Parse.text_name_of_isMissing isBlock absent]
    rfl
  repetitions_eq := by
    rw [← Diagnostic.filter_isNumbered_filter (show 16 ≤ 17 by decide)
      (Nat.le_refl 17), filter_blocks, Checks.blocks,
      Checks.filter_blockDiagnostics, markAmong_nil]

/-- An `env` without a value. -/
def unvaluedText : String :=
  "action \"a\" \x7b uses = \"./x\" env = \x7d"

/-- Two actions without a name. -/
def unnamedText : String := "action\naction"

/-- Stand-ins are reported: a value as no object, a name as taken. -/
theorem standIns_reported :
    (∃ place ∈ (ofText unvaluedText).tree.properties,
      place.2.value.isMissing = true ∧
        ⟨.valueIsNotObject, place.2.key.span⟩ ∈
          (ofText unvaluedText).diagnostics) ∧
      ∃ block ∈ (ofText unnamedText).tree.blocks,
        block.name.isMissing = true ∧
          ⟨.duplicateBlock "", block.name.span⟩ ∈
            (ofText unnamedText).diagnostics := by
  constructor
  · decide +kernel
  · have reports : Checks.blocks false (ofText unnamedText).document =
        [⟨.duplicateBlock "", ⟨⟨1, 0⟩, ⟨1, 6⟩⟩⟩] := by
      rw [Checks.blocks, blocks_eq]
      decide +kernel
    have absent : ∃ block ∈ (ofText unnamedText).tree.blocks,
        block.name.isMissing = true ∧
          block.name.span = ⟨⟨1, 0⟩, ⟨1, 6⟩⟩ := by
      decide +kernel
    obtain ⟨block, isBlock, isMissing, place⟩ := absent
    have reported : ⟨.duplicateBlock "", block.name.span⟩ ∈
        (ofText unnamedText).diagnostics.filter fun diagnostic =>
          diagnostic.problem.isNumbered 16 17 := by
      rw [filter_blocks, reports, place]
      exact List.mem_singleton_self _
    exact ⟨block, isBlock, isMissing, (List.mem_filter.mp reported).1⟩

end Compilation

end WorkflowLang
