import WorkflowLang.Proofs.Tree.Order
import WorkflowLang.Proofs.Tree.Mapping

/-!
# Changing the tokens of a document

A document refers to the tokens it was bound from.  A function on tokens that
keeps kinds and texts may be applied before or after binding; so documents
bound from trees that differ in places only differ in places only.
-/

namespace WorkflowLang

/-- A function on tokens keeps what they are and say. -/
structure Token.KeepsContent (view : Token → Token) : Prop where
  kind_view : ∀ token, (view token).kind = token.kind
  text_view : ∀ token, (view token).text = token.text

theorem Token.keepsContent_unplaced : Token.KeepsContent Token.unplaced :=
  ⟨fun _ => rfl, fun _ => rfl⟩

theorem Token.KeepsContent.isMissing_view {view : Token → Token}
    (keeps : Token.KeepsContent view) (token : Token) :
    (view token).isMissing = token.isMissing := by
  rw [Token.isMissing, keeps.kind_view, Token.isMissing]

def StringValue.mapTokens (view : Token → Token) (string : StringValue) :
    StringValue :=
  { string with token := view string.token }

def EnvironmentVariable.mapTokens (view : Token → Token)
    (entry : EnvironmentVariable) : EnvironmentVariable :=
  ⟨entry.name, entry.value.mapTokens view, entry.member.mapTokens view⟩

/-- Changes the tokens of a definition, those of its value by `mapValue`. -/
def Definition.mapTokens {Value : Type} (mapValue : Value → Value)
    (view : Token → Token) (definition : Definition Value) :
    Definition Value :=
  ⟨mapValue definition.value, definition.property.mapTokens view⟩

def DocumentVersion.mapTokens (view : Token → Token)
    (version : DocumentVersion) : DocumentVersion :=
  { version with statement := version.statement.mapTokens view }

namespace Definition

def mapString (view : Token → Token) :
    Option (Definition (Option StringValue)) →
      Option (Definition (Option StringValue)) :=
  Option.map (mapTokens (Option.map (StringValue.mapTokens view)) view)

def mapStrings (view : Token → Token) :
    Option (Definition (List StringValue)) →
      Option (Definition (List StringValue)) :=
  Option.map (mapTokens (List.map (StringValue.mapTokens view)) view)

def mapEnvironment (view : Token → Token) :
    Option (Definition (List EnvironmentVariable)) →
      Option (Definition (List EnvironmentVariable)) :=
  Option.map (mapTokens (List.map (EnvironmentVariable.mapTokens view)) view)

end Definition

def Workflow.mapTokens (view : Token → Token) (workflow : Workflow) :
    Workflow where
  name := workflow.name
  on := Definition.mapString view workflow.on
  resolves := Definition.mapStrings view workflow.resolves
  block := workflow.block.mapTokens view

def Action.mapTokens (view : Token → Token) (action : Action) : Action where
  name := action.name
  uses := Definition.mapString view action.uses
  needs := Definition.mapStrings view action.needs
  runs := Definition.mapStrings view action.runs
  args := Definition.mapStrings view action.args
  env := Definition.mapEnvironment view action.env
  secrets := Definition.mapStrings view action.secrets
  block := action.block.mapTokens view

def DocumentBlock.mapTokens (view : Token → Token) :
    DocumentBlock → DocumentBlock
  | .workflow declared => .workflow (declared.mapTokens view)
  | .action declared => .action (declared.mapTokens view)

def Document.mapTokens (view : Token → Token) (document : Document) :
    Document where
  version := document.version.map (DocumentVersion.mapTokens view)
  workflows := document.workflows.map (Workflow.mapTokens view)
  actions := document.actions.map (Action.mapTokens view)

section

variable {view : Token → Token} (keeps : Token.KeepsContent view)

include keeps

theorem StringValue.ofToken?_view (token : Token) :
    ofToken? (view token) = (ofToken? token).map (mapTokens view) := by
  unfold ofToken?
  rw [keeps.isMissing_view, keeps.text_view]
  split <;> rfl

namespace PropertyValue

theorem string?_mapTokens (value : PropertyValue) :
    (value.mapTokens view).string? =
      value.string?.map (StringValue.mapTokens view) := by
  cases value with
  | string value => exact StringValue.ofToken?_view keeps value
  | array _ _ _ => rfl
  | object _ _ _ => rfl

theorem strings_mapTokens (value : PropertyValue) :
    (value.mapTokens view).strings =
      value.strings.map (StringValue.mapTokens view) := by
  cases value with
  | string value =>
      simp only [mapTokens, strings, StringValue.ofToken?_view keeps]
      exact Option.toList_map ..
  | array openBracket items closeBracket =>
      simp [mapTokens, strings, List.filterMap_map, List.map_filterMap,
        ArrayItem.mapTokens, StringValue.ofToken?_view keeps,
        Function.comp_def]
  | object _ _ _ => rfl

end PropertyValue

namespace EnvironmentVariable

theorem ofMember?_mapTokens (member : ObjectMember) :
    ofMember? (member.mapTokens view) =
      (ofMember? member).map (mapTokens view) := by
  simp only [ofMember?, ObjectMember.mapTokens,
    StringValue.ofToken?_view keeps, keeps.isMissing_view, keeps.text_view]
  cases StringValue.ofToken? member.value with
  | none => rfl
  | some value =>
      simp only [Option.map_some]
      split <;> rfl

omit keeps in
theorem firstOfName_map (seen : List String)
    (entries : List EnvironmentVariable) :
    firstOfName seen (entries.map (mapTokens view)) =
      (firstOfName seen entries).map (mapTokens view) := by
  induction entries generalizing seen with
  | nil => rfl
  | cons entry others inductionHypothesis =>
      simp only [List.map_cons, firstOfName]
      split
      · rename_i isSeen
        rw [if_pos (show seen.contains entry.name = true from isSeen)]
        exact inductionHypothesis seen
      · rename_i isNew
        rw [if_neg (show ¬seen.contains entry.name = true from isNew),
          List.map_cons]
        exact congrArg _ (inductionHypothesis _)

end EnvironmentVariable

theorem PropertyValue.members_mapTokens (value : PropertyValue) :
    (value.mapTokens view).members =
      value.members.map (EnvironmentVariable.mapTokens view) := by
  cases value with
  | string _ => rfl
  | array _ _ _ => rfl
  | object openBracket members closeBracket =>
      simp [mapTokens, PropertyValue.members, List.filterMap_map,
        List.map_filterMap, EnvironmentVariable.ofMember?_mapTokens keeps]

theorem PropertyValue.environment_mapTokens (value : PropertyValue) :
    (value.mapTokens view).environment =
      value.environment.map (EnvironmentVariable.mapTokens view) := by
  rw [environment, value.members_mapTokens keeps,
    EnvironmentVariable.firstOfName_map, environment]

namespace Block

omit keeps in
theorem property?_mapTokens
    (kind_view : ∀ token, (view token).kind = token.kind) (block : Block)
    (key : TokenKind) :
    (block.mapTokens view).property? key =
      (block.property? key).map (Property.mapTokens view) := by
  have sameKey : (fun property : Property => property.key.kind == key) ∘
      Property.mapTokens view = fun property => property.key.kind == key :=
    funext fun property => congrArg (· == key) (kind_view property.key)
  rw [property?, mapTokens, List.find?_map, sameKey, property?]

omit keeps in
/-- A slot is filled alike when the value that fills it is read alike. -/
theorem slot_mapTokens_of {Value : Type} {read : PropertyValue → Value}
    {mapValue : Value → Value}
    (kind_view : ∀ token, (view token).kind = token.kind) {block : Block}
    {key : TokenKind}
    (alike : ∀ property ∈ block.property? key,
      read (property.value.mapTokens view) = mapValue (read property.value)) :
    (block.mapTokens view).slot key read =
      (block.slot key read).map (Definition.mapTokens mapValue view) := by
  rw [slot, property?_mapTokens kind_view, slot]
  cases found : block.property? key with
  | none => rfl
  | some property =>
      simp [Definition.mapTokens, Property.mapTokens, alike property found]

theorem slot_mapTokens {Value : Type} {read : PropertyValue → Value}
    {mapValue : Value → Value}
    (alike : ∀ value, read (value.mapTokens view) = mapValue (read value))
    (block : Block) (key : TokenKind) :
    (block.mapTokens view).slot key read =
      (block.slot key read).map (Definition.mapTokens mapValue view) :=
  slot_mapTokens_of keeps.kind_view fun property _ => alike property.value

theorem toWorkflow_mapTokens (block : Block) :
    (block.mapTokens view).toWorkflow =
      block.toWorkflow.mapTokens view := by
  simp only [toWorkflow, Workflow.mapTokens, Definition.mapString,
    Definition.mapStrings, Workflow.mk.injEq]
  refine ⟨congrArg Text.unquote (keeps.text_view _), ?_, ?_, trivial⟩
  · exact slot_mapTokens keeps (PropertyValue.string?_mapTokens keeps) _ _
  · exact slot_mapTokens keeps (PropertyValue.strings_mapTokens keeps) _ _

theorem toAction_mapTokens (block : Block) :
    (block.mapTokens view).toAction = block.toAction.mapTokens view := by
  have strings (key : TokenKind) :=
    slot_mapTokens keeps (PropertyValue.strings_mapTokens keeps) block key
  simp only [toAction, Action.mapTokens, Definition.mapString,
    Definition.mapStrings, Definition.mapEnvironment, strings,
    Action.mk.injEq]
  refine ⟨congrArg Text.unquote (keeps.text_view _), ?_, trivial, trivial,
    trivial, ?_, trivial, trivial⟩
  · exact slot_mapTokens keeps (PropertyValue.string?_mapTokens keeps) _ _
  · exact slot_mapTokens keeps (PropertyValue.environment_mapTokens keeps)
      _ _

end Block

theorem VersionStatement.value_mapTokens (version : VersionStatement) :
    (version.mapTokens view).value = version.value := by
  simp [value, mapTokens, keeps.isMissing_view, keeps.text_view]

/-- Binding a changed tree is changing the document it binds to. -/
theorem Document.ofTree_mapTokens (tree : SyntaxTree) :
    ofTree (tree.mapTokens view) = (ofTree tree).mapTokens view := by
  have kinds (kind : BlockKind) :
      (tree.blocks.map (Block.mapTokens view)).filter
          (fun block => block.kind == kind) =
        (tree.blocks.filter fun block => block.kind == kind).map
          (Block.mapTokens view) := by
    rw [List.filter_map]
    rfl
  simp only [ofTree, mapTokens, SyntaxTree.versions_mapTokens,
    SyntaxTree.blocks_mapTokens, kinds, List.map_map, List.head?_map,
    Option.map_map, Document.mk.injEq]
  refine ⟨?_, ?_, ?_⟩
  · congr 1
    funext version
    simp [DocumentVersion.mapTokens, VersionStatement.value_mapTokens keeps]
  · congr 1
    funext block
    exact Block.toWorkflow_mapTokens keeps block
  · congr 1
    funext block
    exact Block.toAction_mapTokens keeps block

theorem DocumentBlock.ofBlock_mapTokens (block : Block) :
    ofBlock (block.mapTokens view) = (ofBlock block).mapTokens view := by
  have kind : (block.mapTokens view).kind = block.kind := rfl
  unfold ofBlock
  rw [kind]
  split
  · exact congrArg DocumentBlock.workflow
      (Block.toWorkflow_mapTokens keeps block)
  · exact congrArg DocumentBlock.action
      (Block.toAction_mapTokens keeps block)

end

/-- Trees that differ in places only, and whose tokens follow each other, mean
documents that differ in places only, with their blocks in the same order. -/
theorem Document.relocated {first second : SyntaxTree}
    (same : first.mapTokens Token.unplaced = second.mapTokens Token.unplaced)
    (firstOrdered : first.IsOrdered) (secondOrdered : second.IsOrdered) :
    (ofTree first).mapTokens Token.unplaced =
        (ofTree second).mapTokens Token.unplaced ∧
      (ofTree first).blocks.map (DocumentBlock.mapTokens Token.unplaced) =
        (ofTree second).blocks.map
          (DocumentBlock.mapTokens Token.unplaced) := by
  have keeps := Token.keepsContent_unplaced
  have blocks (tree : SyntaxTree) (ordered : tree.IsOrdered) :
      (ofTree tree).blocks.map (DocumentBlock.mapTokens Token.unplaced) =
        (tree.mapTokens Token.unplaced).blocks.map
          DocumentBlock.ofBlock := by
    rw [ordered.blocks_ofTree, SyntaxTree.blocks_mapTokens, List.map_map,
      List.map_map]
    congr 1
    funext block
    exact (DocumentBlock.ofBlock_mapTokens keeps block).symm
  refine ⟨?_, ?_⟩
  · rw [← ofTree_mapTokens keeps, same, ofTree_mapTokens keeps]
  · rw [blocks first firstOrdered, same, blocks second secondOrdered]

end WorkflowLang
