import WorkflowLang.Proofs.Document.Mapping
import WorkflowLang.Proofs.Document.Naming
import WorkflowLang.Proofs.Token.Replacing

/-!
# Renaming an action in a document

Renaming changes the declarations of an action, the entries that refer to it, and
the tokens that hold these names.  It does not matter whether this is done to a
document or to the tree from which the document is bound
(`SyntaxTree.IsOrdered.ofTree_rename`).
-/

namespace WorkflowLang

/-- A name after an action has been renamed. -/
def renamedTo (old new name : String) : String :=
  if name = old then new else name

def StringValue.rename (old new : String) (string : StringValue) :
    StringValue :=
  { string with value := renamedTo old new string.value }

def Definition.renameEntries (old new : String) :
    Option (Definition (List StringValue)) →
      Option (Definition (List StringValue)) :=
  Option.map fun definition =>
    { definition with
      value := definition.value.map (StringValue.rename old new) }

def Workflow.rename (old new : String) (workflow : Workflow) : Workflow :=
  { workflow with
    resolves := Definition.renameEntries old new workflow.resolves }

def Action.rename (old new : String) (action : Action) : Action :=
  { action with
    name := renamedTo old new action.name
    needs := Definition.renameEntries old new action.needs }

/-- A document in which an action has another name: the declarations, the entries
that refer to it and the tokens of both are changed, and nothing else. -/
def Document.rename (old new : String) (document : Document) : Document :=
  let renamed : Document :=
    { document with
      workflows := document.workflows.map (Workflow.rename old new)
      actions := document.actions.map (Action.rename old new) }
  renamed.mapTokens (Token.renameAmong (document.namingTokens old) new)

section

variable {view : Token → Token} {old new : String}

/-- A function on tokens renames what a token says. -/
def Token.RenamedBy (view : Token → Token) (old new : String)
    (token : Token) : Prop :=
  token.isMissing = false →
    Text.unquote (view token).text =
      renamedTo old new (Text.unquote token.text)

theorem StringValue.ofToken?_renamed {token : Token}
    (kind : (view token).kind = token.kind)
    (renamed : token.RenamedBy view old new) :
    ofToken? (view token) =
      (ofToken? token).map fun string =>
        (string.rename old new).mapTokens view := by
  have same : (view token).isMissing = token.isMissing := by
    rw [Token.isMissing, kind, Token.isMissing]
  unfold ofToken?
  rw [same]
  cases missing : token.isMissing with
  | true => rfl
  | false =>
      have value := renamed missing
      simp [rename, mapTokens, value]

namespace PropertyValue

theorem entryTokens_mapTokens (view : Token → Token)
    (value : PropertyValue) :
    (value.mapTokens view).entryTokens = value.entryTokens.map view := by
  cases value with
  | string _ => rfl
  | array openBracket items closeBracket =>
      rw [mapTokens, entryTokens, entryTokens, List.map_map, List.map_map]
      rfl
  | object _ _ _ => rfl

theorem strings_renamed
    (kind_view : ∀ token, (view token).kind = token.kind)
    {value : PropertyValue}
    (renamed : ∀ token ∈ value.entryTokens, token.RenamedBy view old new) :
    (value.mapTokens view).strings =
      value.strings.map fun string =>
        (string.rename old new).mapTokens view := by
  rw [strings_eq, entryTokens_mapTokens, strings_eq, List.filterMap_map,
    List.map_filterMap]
  apply List.filterMap_congr
  intro token member
  exact StringValue.ofToken?_renamed (kind_view token) (renamed token member)

variable {value : PropertyValue}

theorem string?_fixed
    (fixed : ∀ token ∈ value.tokens, view token = token) :
    (value.mapTokens view).string? =
      value.string?.map (StringValue.mapTokens view) := by
  rw [mapTokens_eq_self fixed]
  apply Eq.symm
  apply mapOption_eq_self
  intro string isString
  cases value with
  | string token =>
      obtain ⟨sameToken, -⟩ := StringValue.ofToken?_eq_some isString
      rw [StringValue.mapTokens, sameToken, fixed token List.mem_cons_self,
        ← sameToken]
  | array _ _ _ => contradiction
  | object _ _ _ => contradiction

theorem strings_fixed
    (fixed : ∀ token ∈ value.tokens, view token = token) :
    (value.mapTokens view).strings =
      value.strings.map (StringValue.mapTokens view) := by
  rw [mapTokens_eq_self fixed]
  apply Eq.symm
  apply mapPieces_eq_self
  intro string isString
  have inValue := value.map_token_strings_sublist.subset
    (List.mem_map_of_mem isString)
  rw [StringValue.mapTokens, fixed string.token inValue]

end PropertyValue

namespace EnvironmentVariable

theorem firstOfName_sublist (seen : List String)
    (entries : List EnvironmentVariable) :
    (firstOfName seen entries).Sublist entries := by
  induction entries generalizing seen with
  | nil => exact List.Sublist.slnil
  | cons entry others inductionHypothesis =>
      rw [firstOfName]
      split
      · exact (inductionHypothesis seen).cons entry
      · exact (inductionHypothesis _).cons_cons entry

theorem mapTokens_of_ofMember? {member : ObjectMember}
    {entry : EnvironmentVariable} (defines : ofMember? member = some entry)
    (fixed : ∀ token ∈ member.tokens, view token = token) :
    entry.mapTokens view = entry := by
  unfold ofMember? at defines
  cases isString : StringValue.ofToken? member.value with
  | none => simp [isString] at defines
  | some string =>
      obtain ⟨sameToken, -⟩ := StringValue.ofToken?_eq_some isString
      have sameString : string.mapTokens view = string := by
        have value := fixed member.value (by simp [ObjectMember.tokens])
        rw [StringValue.mapTokens, sameToken, value, ← sameToken]
      simp only [isString] at defines
      split at defines
      · contradiction
      · obtain rfl := Option.some.inj defines
        rw [mapTokens, sameString, ObjectMember.mapTokens_eq_self fixed]

end EnvironmentVariable

theorem PropertyValue.environment_fixed {value : PropertyValue}
    (fixed : ∀ token ∈ value.tokens, view token = token) :
    (value.mapTokens view).environment =
      value.environment.map (EnvironmentVariable.mapTokens view) := by
  rw [mapTokens_eq_self fixed]
  apply Eq.symm
  apply mapPieces_eq_self
  intro entry isEntry
  have isMember := (EnvironmentVariable.firstOfName_sublist [] _).subset
    isEntry
  cases value with
  | string _ => simp [members] at isMember
  | array _ _ _ => simp [members] at isMember
  | object openBracket members closeBracket =>
      obtain ⟨member, inObject, defines⟩ := List.mem_filterMap.mp isMember
      apply EnvironmentVariable.mapTokens_of_ofMember? defines
      intro token present
      apply fixed
      simp only [tokens, List.mem_append, List.mem_cons, List.mem_flatMap]
      exact Or.inl (Or.inr ⟨member, inObject, present⟩)

/-- A function on tokens renames an action in a block: its name, if it declares
the action, and its entries that refer to actions, but no other property. -/
structure Block.IsRenamedBy (view : Token → Token) (old new : String)
    (block : Block) : Prop where
  kind_view : ∀ token, (view token).kind = token.kind
  workflow_name : block.kind = .workflow → view block.name = block.name
  action_name : block.kind = .action →
    Text.unquote (view block.name).text =
      renamedTo old new (Text.unquote block.name.text)
  references : ∀ property ∈ block.property? block.kind.referenceKey,
    ∀ token ∈ property.value.entryTokens, token.RenamedBy view old new
  others : ∀ key, key ≠ block.kind.referenceKey →
    ∀ property ∈ block.property? key,
      ∀ token ∈ property.value.tokens, view token = token

namespace Block.IsRenamedBy

variable {block : Block}

theorem references_slot (renamed : block.IsRenamedBy view old new) :
    (block.mapTokens view).slot block.kind.referenceKey
        PropertyValue.strings =
      Definition.mapStrings view (Definition.renameEntries old new
        (block.slot block.kind.referenceKey PropertyValue.strings)) := by
  rw [slot_mapTokens_of renamed.kind_view fun property found =>
    PropertyValue.strings_renamed renamed.kind_view
      (renamed.references property found)]
  rw [Definition.mapStrings, Definition.renameEntries, Option.map_map]
  congr 1
  funext definition
  simp [Definition.mapTokens]

theorem toWorkflow (renamed : block.IsRenamedBy view old new)
    (isWorkflow : block.kind = .workflow) :
    (block.mapTokens view).toWorkflow =
      (block.toWorkflow.rename old new).mapTokens view := by
  have key : block.kind.referenceKey = .resolves := by rw [isWorkflow]; rfl
  have references := renamed.references_slot
  have others := renamed.others
  rw [key] at references others
  simp only [Block.toWorkflow, Workflow.rename, Workflow.mapTokens,
    Workflow.mk.injEq]
  refine ⟨?_, ?_, references, trivial⟩
  · exact congrArg (fun token => Text.unquote token.text)
      (renamed.workflow_name isWorkflow)
  · apply slot_mapTokens_of renamed.kind_view
    intro property found
    exact PropertyValue.string?_fixed (others .on (by decide) property found)

theorem toAction (renamed : block.IsRenamedBy view old new)
    (isAction : block.kind = .action) :
    (block.mapTokens view).toAction =
      (block.toAction.rename old new).mapTokens view := by
  have key : block.kind.referenceKey = .needs := by rw [isAction]; rfl
  have references := renamed.references_slot
  have others := renamed.others
  rw [key] at references others
  have strings (key : TokenKind) (isOther : key ≠ .needs) :
      (block.mapTokens view).slot key PropertyValue.strings =
        Definition.mapStrings view
          (block.slot key PropertyValue.strings) := by
    apply slot_mapTokens_of renamed.kind_view
    intro property found
    exact PropertyValue.strings_fixed (others key isOther property found)
  simp only [Block.toAction, Action.rename, Action.mapTokens,
    Action.mk.injEq]
  refine ⟨renamed.action_name isAction, ?_, references,
    strings .runs (by decide), strings .args (by decide), ?_,
    strings .secrets (by decide), trivial⟩
  · apply slot_mapTokens_of renamed.kind_view
    intro property found
    exact PropertyValue.string?_fixed
      (others .uses (by decide) property found)
  · apply slot_mapTokens_of renamed.kind_view
    intro property found
    exact PropertyValue.environment_fixed
      (others .env (by decide) property found)

end Block.IsRenamedBy

end

namespace Block

variable {block : Block}

theorem name_notMem (nodup : block.tokens.Nodup) {property : Property}
    (isProperty : property ∈ block.properties) :
    block.name ∉ property.tokens := by
  intro inProperty
  have front := nodup.sublist (List.sublist_append_left _ _)
  have disjoint := (List.nodup_append.mp front).2.2
  have inFront : block.name ∈
      [block.keyword, block.name, block.openBracket] := by
    simp
  exact disjoint block.name inFront block.name
    (List.mem_flatMap.mpr ⟨property, isProperty, inProperty⟩) rfl

theorem nodup_properties (nodup : block.tokens.Nodup) :
    (block.properties.flatMap Property.tokens).Nodup := by
  have front := nodup.sublist (List.sublist_append_left _ _)
  exact (List.nodup_append.mp front).2.1

end Block

namespace Token

theorem unquote_renameAmong {naming : List Token} {old new : String}
    {token : Token} (named : token ∈ naming ↔ Text.unquote token.text = old) :
    Text.unquote (token.renameAmong naming new).text =
      renamedTo old new (Text.unquote token.text) := by
  by_cases isOld : Text.unquote token.text = old
  · rw [renameAmong_of_mem (named.mpr isOld), renamedTo, if_pos isOld]
    exact Text.unquote_quoted new
  · rw [renameAmong_of_notMem (mt named.mp isOld), renamedTo, if_neg isOld]

end Token

namespace SyntaxTree

variable {tree : SyntaxTree}

theorem IsOrdered.nodup_blocks (ordered : tree.IsOrdered) :
    (tree.blocks.flatMap Block.tokens).Nodup :=
  tree.blocks_flatMap_sublist.nodup ordered.nodup_tokens

/-- Which tokens of a block name an action is seen in the block itself. -/
theorem IsOrdered.mem_namingTokens_iff (ordered : tree.IsOrdered)
    {block : Block} (isBlock : block ∈ tree.blocks) {token : Token}
    (inBlock : token ∈ block.tokens) (name : String) :
    token ∈ (Document.ofTree tree).namingTokens name ↔
      token ∈ block.declaringTokens name ∨
        token ∈ block.referringTokens name := by
  rw [mem_namingTokens]
  constructor
  · rintro ⟨other, isOther, names⟩
    have inOther := (other.namingTokens_sublist name).subset
      (List.mem_append.mpr names)
    obtain rfl := eq_of_nodup_flatMap ordered.nodup_blocks isBlock isOther
      inBlock inOther
    exact names
  · intro names
    exact ⟨block, isBlock, names⟩

theorem IsOrdered.isRenamedBy (ordered : tree.IsOrdered) (old new : String)
    {block : Block} (isBlock : block ∈ tree.blocks) :
    block.IsRenamedBy (Token.renameAmong
      ((Document.ofTree tree).namingTokens old) new) old new := by
  have nodup := (List.nodup_flatMap.mp ordered.nodup_blocks).1 block isBlock
  have nameInBlock : block.name ∈ block.tokens := by simp [Block.tokens]
  have inBlock : ∀ property ∈ block.properties,
      ∀ token ∈ property.value.tokens, token ∈ block.tokens := by
    intro property isProperty token inValue
    simp only [Block.tokens, List.mem_append, List.mem_flatMap]
    exact Or.inl (Or.inr ⟨property, isProperty,
      List.mem_append_right _ inValue⟩)
  have nameNotReferring : block.name ∉ block.referringTokens old := by
    intro refers
    obtain ⟨-, property, found, isEntry⟩ := Block.mem_referringTokens refers
    exact Block.name_notMem nodup (Block.property?_eq_some found).1
      (List.mem_append_right _
        (property.value.entryTokens_sublist.subset isEntry))
  -- A token stands in one place only: the name of the block is no entry, and an
  -- entry that refers to an action is in no other property.
  constructor
  · exact Token.kind_renameAmong _ _
  · intro isWorkflow
    apply Token.renameAmong_of_notMem
    rw [ordered.mem_namingTokens_iff isBlock nameInBlock,
      Block.mem_declaringTokens, isWorkflow]
    simp [nameNotReferring]
  · intro isAction
    apply Token.unquote_renameAmong
    rw [ordered.mem_namingTokens_iff isBlock nameInBlock,
      Block.mem_declaringTokens, isAction]
    simp [nameNotReferring]
  · intro property found token isEntry present
    apply Token.unquote_renameAmong
    have inValue := property.value.entryTokens_sublist.subset isEntry
    rw [ordered.mem_namingTokens_iff isBlock
      (inBlock property (Block.property?_eq_some found).1 token inValue)]
    constructor
    · rintro (declares | refers)
      · obtain ⟨-, rfl, named⟩ := Block.mem_declaringTokens.mp declares
        exact named
      · exact (Block.mem_referringTokens refers).1
    · rintro rfl
      exact Or.inr (Block.mem_referringTokens_of_entry found isEntry present)
  · intro key isOther property found token inValue
    obtain ⟨isProperty, isKey⟩ := Block.property?_eq_some found
    apply Token.renameAmong_of_notMem
    rw [ordered.mem_namingTokens_iff isBlock
      (inBlock property isProperty token inValue)]
    rintro (declares | refers)
    · obtain ⟨-, rfl, -⟩ := Block.mem_declaringTokens.mp declares
      exact Block.name_notMem nodup isProperty
        (List.mem_append_right _ inValue)
    · obtain ⟨-, other, otherFound, isEntry⟩ :=
        Block.mem_referringTokens refers
      have inOther := other.value.entryTokens_sublist.subset isEntry
      obtain ⟨isOtherProperty, isOtherKey⟩ :=
        Block.property?_eq_some otherFound
      obtain rfl := eq_of_nodup_flatMap (Block.nodup_properties nodup)
        isProperty isOtherProperty (List.mem_append_right _ inValue)
        (List.mem_append_right _ inOther)
      exact isOther (isKey.symm.trans isOtherKey)

theorem IsOrdered.version_mapTokens (ordered : tree.IsOrdered)
    (old new : String) {version : VersionStatement}
    (isVersion : version ∈ tree.versions) :
    version.mapTokens (Token.renameAmong
      ((Document.ofTree tree).namingTokens old) new) = version := by
  apply VersionStatement.mapTokens_eq_self
  intro token inVersion
  apply Token.renameAmong_of_notMem
  intro names
  obtain ⟨block, isBlock, names⟩ := mem_namingTokens.mp names
  have inBlock := (block.namingTokens_sublist old).subset
    (List.mem_append.mpr names)
  have versionMember : Statement.version version ∈ tree.statements := by
    apply tree.perm_statements.subset
    exact List.mem_append_left _ (List.mem_map_of_mem isVersion)
  have blockMember : Statement.block block ∈ tree.statements := by
    apply tree.perm_statements.subset
    exact List.mem_append_right _ (List.mem_map_of_mem isBlock)
  have same := eq_of_nodup_flatMap ordered.nodup_tokens versionMember
    blockMember inVersion inBlock
  contradiction

/-- Renaming an action in a tree renames it in the document. -/
theorem IsOrdered.ofTree_rename (ordered : tree.IsOrdered)
    (old new : String) :
    Document.ofTree (tree.mapTokens (Token.renameAmong
        ((Document.ofTree tree).namingTokens old) new)) =
      (Document.ofTree tree).rename old new := by
  have blocks := fun block (isBlock : block ∈ tree.blocks) =>
    ordered.isRenamedBy old new isBlock
  have versions := fun version (isVersion : version ∈ tree.versions) =>
    ordered.version_mapTokens old new isVersion
  rw [Document.rename]
  generalize Token.renameAmong ((Document.ofTree tree).namingTokens old) new =
    view at blocks versions ⊢
  have ofKind (kind : BlockKind) :
      (tree.blocks.map (Block.mapTokens view)).filter
          (fun block => block.kind == kind) =
        (tree.blocks.filter fun block => block.kind == kind).map
          (Block.mapTokens view) := by
    rw [List.filter_map]
    rfl
  simp only [Document.ofTree, Document.mapTokens, versions_mapTokens,
    blocks_mapTokens, ofKind, List.map_map, Document.mk.injEq]
  refine ⟨?_, ?_, ?_⟩
  · cases found : tree.versions with
    | nil => rfl
    | cons version others =>
        have same := versions version (by rw [found]; exact List.mem_cons_self)
        simp [DocumentVersion.mapTokens, same]
  · apply List.map_congr_left
    intro block member
    obtain ⟨isBlock, isKind⟩ := List.mem_filter.mp member
    exact (blocks block isBlock).toWorkflow (beq_iff_eq.mp isKind)
  · apply List.map_congr_left
    intro block member
    obtain ⟨isBlock, isKind⟩ := List.mem_filter.mp member
    exact (blocks block isBlock).toAction (beq_iff_eq.mp isKind)

end SyntaxTree

end WorkflowLang
