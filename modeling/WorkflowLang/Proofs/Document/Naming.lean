import WorkflowLang.Compilation
import WorkflowLang.Proofs.Tree.Order
import WorkflowLang.Proofs.Tree.Typing
import Mathlib.Data.List.Flatten
import Mathlib.Data.List.Nodup
import Mathlib.Data.List.Pairwise
import Mathlib.Data.List.Perm.Basic

/-!
# The tokens that name an action

An action is named by the blocks that declare it and by the entries of `needs`
and `resolves` that refer to it.  Where the tokens of a tree follow each other,
every token stands in one place only, so the tokens that name an action are found
block by block, each of them once (`SyntaxTree.IsOrdered.nodup_namingTokens`).
-/

namespace WorkflowLang

/-- A token that is found in two pieces tells that they are one. -/
theorem eq_of_nodup_flatMap {Piece : Type} {tokensOf : Piece → List Token}
    {pieces : List Piece} (nodup : (pieces.flatMap tokensOf).Nodup)
    {first second : Piece} (isFirst : first ∈ pieces)
    (isSecond : second ∈ pieces) {token : Token}
    (inFirst : token ∈ tokensOf first) (inSecond : token ∈ tokensOf second) :
    first = second := by
  by_contra distinct
  have symmetric : Std.Symm (Function.onFun List.Disjoint tokensOf) :=
    ⟨fun _ _ disjoint _ inSecond inFirst => disjoint inFirst inSecond⟩
  have disjoint := (List.nodup_flatMap.mp nodup).2.forall isFirst isSecond
    distinct
  exact disjoint inFirst inSecond

namespace StringValue

theorem ofToken?_eq_some {token : Token} {string : StringValue}
    (isString : ofToken? token = some string) :
    string.token = token ∧ string.value = Text.unquote token.text := by
  unfold ofToken? at isString
  split at isString
  · contradiction
  · obtain rfl := Option.some.inj isString
    exact ⟨rfl, rfl⟩

theorem isMissing_of_ofToken?_eq_some {token : Token} {string : StringValue}
    (isString : ofToken? token = some string) : token.isMissing = false := by
  unfold ofToken? at isString
  split at isString
  · contradiction
  · rename_i present
    exact Bool.eq_false_iff.mpr present

end StringValue

namespace PropertyValue

theorem strings_eq (value : PropertyValue) :
    value.strings = value.entryTokens.filterMap StringValue.ofToken? := by
  cases value with
  | string value =>
      rw [strings, entryTokens, List.filterMap_cons, List.filterMap_nil]
      cases StringValue.ofToken? value <;> rfl
  | array openBracket items closeBracket =>
      rw [strings, entryTokens, List.filterMap_map]
      rfl
  | object _ _ _ => rfl

theorem entryTokens_sublist (value : PropertyValue) :
    value.entryTokens.Sublist value.tokens := by
  cases value with
  | string value => exact List.Sublist.refl _
  | array openBracket items closeBracket =>
      have inner : (items.map ArrayItem.value).Sublist
          (items.flatMap ArrayItem.tokens) := by
        rw [List.map_eq_flatMap]
        apply List.Sublist.flatMap_right
        intro item _
        exact List.singleton_sublist.mpr List.mem_cons_self
      exact (inner.trans (List.sublist_append_left _ _)).cons _
  | object _ _ _ => exact List.nil_sublist _

theorem map_token_strings_sublist (value : PropertyValue) :
    (value.strings.map StringValue.token).Sublist value.tokens := by
  have entries : (value.strings.map StringValue.token).Sublist
      value.entryTokens := by
    rw [strings_eq]
    induction value.entryTokens with
    | nil => exact List.Sublist.slnil
    | cons token others inductionHypothesis =>
        cases isString : StringValue.ofToken? token with
        | none =>
            rw [List.filterMap_cons_none isString]
            exact inductionHypothesis.cons token
        | some string =>
            obtain ⟨rfl, -⟩ := StringValue.ofToken?_eq_some isString
            rw [List.filterMap_cons_some isString, List.map_cons]
            exact inductionHypothesis.cons_cons _
  exact entries.trans value.entryTokens_sublist

end PropertyValue

/-- The property in which blocks of a kind refer to actions. -/
def BlockKind.referenceKey : BlockKind → TokenKind
  | .workflow => .resolves
  | .action => .needs

namespace Block

/-- The entries of a block that refer to actions. -/
def references (block : Block) : List StringValue :=
  Definition.entries
    (block.slot block.kind.referenceKey PropertyValue.strings)

/-- The name of a block, if the block declares an action of this name. -/
def declaringTokens (block : Block) (name : String) : List Token :=
  match block.kind with
  | .workflow => []
  | .action =>
      if Text.unquote block.name.text == name then [block.name] else []

/-- The entries of a block that refer to an action. -/
def referringTokens (block : Block) (name : String) : List Token :=
  (block.references.filter fun entry => entry.value == name).map
    StringValue.token

theorem property?_eq_some {block : Block} {key : TokenKind}
    {property : Property} (found : block.property? key = some property) :
    property ∈ block.properties ∧ property.key.kind = key := by
  constructor
  · exact List.mem_of_find?_eq_some found
  · have isKey := List.find?_some found
    exact beq_iff_eq.mp isKey

theorem references_eq {block : Block} {property : Property}
    (found : block.property? block.kind.referenceKey = some property) :
    block.references = property.value.strings := by
  rw [references, slot, found]
  rfl

theorem references_eq_nil {block : Block}
    (absent : block.property? block.kind.referenceKey = none) :
    block.references = [] := by
  rw [references, slot, absent]
  rfl

theorem map_token_references_sublist (block : Block) :
    (block.references.map StringValue.token).Sublist
      (block.properties.flatMap Property.tokens) := by
  cases found : block.property? block.kind.referenceKey with
  | none =>
      rw [references_eq_nil found]
      exact List.nil_sublist _
  | some property =>
      obtain ⟨member, -⟩ := property?_eq_some found
      have inValue := property.value.map_token_strings_sublist
      have inProperty : property.value.tokens.Sublist property.tokens :=
        List.sublist_append_right _ _
      have inBlock := (List.singleton_sublist.mpr member).flatMap
        Property.tokens
      rw [List.flatMap_singleton] at inBlock
      rw [references_eq found]
      exact (inValue.trans inProperty).trans inBlock

theorem isMissing_of_mem_references {block : Block} {entry : StringValue}
    (member : entry ∈ block.references) : entry.token.isMissing = false := by
  cases found : block.property? block.kind.referenceKey with
  | none => simp [references_eq_nil found] at member
  | some property =>
      rw [references_eq found, PropertyValue.strings_eq] at member
      obtain ⟨token, -, isString⟩ := List.mem_filterMap.mp member
      obtain ⟨rfl, -⟩ := StringValue.ofToken?_eq_some isString
      exact StringValue.isMissing_of_ofToken?_eq_some isString

theorem referringTokens_sublist (block : Block) (name : String) :
    (block.referringTokens name).Sublist
      (block.properties.flatMap Property.tokens) := by
  have some : (block.referringTokens name).Sublist
      (block.references.map StringValue.token) :=
    List.filter_sublist.map StringValue.token
  exact some.trans block.map_token_references_sublist

theorem declaringTokens_sublist (block : Block) (name : String) :
    (block.declaringTokens name).Sublist [block.name] := by
  unfold declaringTokens
  split
  · exact List.nil_sublist _
  · split
    · exact List.Sublist.refl _
    · exact List.nil_sublist _

theorem namingTokens_sublist (block : Block) (name : String) :
    (block.declaringTokens name ++ block.referringTokens name).Sublist
      block.tokens := by
  have opens : (block.declaringTokens name).Sublist
      [block.keyword, block.name, block.openBracket] := by
    apply (block.declaringTokens_sublist name).trans
    apply List.Sublist.cons
    exact (List.nil_sublist _).cons_cons _
  have inside := opens.append (block.referringTokens_sublist name)
  exact inside.trans (List.sublist_append_left _ _)

theorem mem_referringTokens {block : Block} {name : String} {token : Token}
    (member : token ∈ block.referringTokens name) :
    Text.unquote token.text = name ∧
      ∃ property, block.property? block.kind.referenceKey = some property ∧
        token ∈ property.value.entryTokens := by
  obtain ⟨entry, isEntry, rfl⟩ := List.mem_map.mp member
  obtain ⟨isReference, named⟩ := List.mem_filter.mp isEntry
  cases found : block.property? block.kind.referenceKey with
  | none => simp [references_eq_nil found] at isReference
  | some property =>
      rw [references_eq found, PropertyValue.strings_eq] at isReference
      obtain ⟨token, inValue, isString⟩ := List.mem_filterMap.mp isReference
      obtain ⟨rfl, value⟩ := StringValue.ofToken?_eq_some isString
      refine ⟨?_, property, rfl, inValue⟩
      rw [← value]
      exact beq_iff_eq.mp named

theorem isMissing_of_mem_referringTokens {block : Block} {name : String}
    {token : Token} (member : token ∈ block.referringTokens name) :
    token.isMissing = false := by
  obtain ⟨entry, isEntry, rfl⟩ := List.mem_map.mp member
  exact isMissing_of_mem_references (List.mem_filter.mp isEntry).1

theorem mem_referringTokens_of_entry {block : Block} {property : Property}
    (found : block.property? block.kind.referenceKey = some property)
    {token : Token} (isEntry : token ∈ property.value.entryTokens)
    (present : token.isMissing = false) :
    token ∈ block.referringTokens (Text.unquote token.text) := by
  have isString : StringValue.ofToken? token =
      some ⟨Text.unquote token.text, token⟩ := by
    rw [StringValue.ofToken?, present]
    rfl
  have isReference : ⟨Text.unquote token.text, token⟩ ∈ block.references := by
    rw [references_eq found, PropertyValue.strings_eq]
    exact List.mem_filterMap.mpr ⟨token, isEntry, isString⟩
  apply List.mem_map.mpr
  refine ⟨_, List.mem_filter.mpr ⟨isReference, ?_⟩, rfl⟩
  exact beq_self_eq_true _

theorem mem_declaringTokens {block : Block} {name : String} {token : Token} :
    token ∈ block.declaringTokens name ↔
      block.kind = .action ∧ token = block.name ∧
        Text.unquote block.name.text = name := by
  unfold declaringTokens
  cases kind : block.kind with
  | workflow => simp
  | action =>
      by_cases named : Text.unquote block.name.text = name
      · simp [named]
      · simp [named]

end Block

theorem DocumentBlock.references_ofBlock (block : Block) :
    (DocumentBlock.ofBlock block).references = block.references := by
  unfold DocumentBlock.ofBlock Block.references
  split
  · rename_i kind
    rw [kind]
    rfl
  · rename_i kind
    rw [kind]
    rfl

/-- The tokens of a document that name an action: those of the entries that refer
to it and those of the blocks that declare it. -/
def Document.namingTokens (document : Document) (name : String) :
    List Token :=
  (document.references.filter fun entry => entry.value == name).map
      StringValue.token ++
    (document.actions.filter fun action => action.name == name).map
      fun action => action.block.name

namespace SyntaxTree

variable {tree : SyntaxTree}

theorem IsOrdered.nodup_tokens (ordered : tree.IsOrdered) :
    tree.tokens.Nodup :=
  (Token.nodup_spans ordered).of_map _

theorem blocks_flatMap_sublist (tree : SyntaxTree) :
    (tree.blocks.flatMap Block.tokens).Sublist tree.tokens := by
  obtain ⟨statements⟩ := tree
  simp only [blocks, tokens]
  induction statements with
  | nil => exact List.Sublist.slnil
  | cons statement others inductionHypothesis =>
      cases statement with
      | version version =>
          exact inductionHypothesis.trans (List.sublist_append_right _ _)
      | block block =>
          exact (List.Sublist.refl block.tokens).append inductionHypothesis

theorem declarations_ofTree (tree : SyntaxTree) (name : String) :
    ((Document.ofTree tree).actions.filter
        fun action => action.name == name).map
          (fun action => action.block.name) =
      tree.blocks.flatMap fun block => block.declaringTokens name := by
  simp only [Document.ofTree]
  induction tree.blocks with
  | nil => rfl
  | cons block others inductionHypothesis =>
      rw [List.flatMap_cons, ← inductionHypothesis]
      cases kind : block.kind with
      | workflow => simp [Block.declaringTokens, kind]
      | action =>
          by_cases named : Text.unquote block.name.text = name
          · simp [Block.declaringTokens, kind, named, Block.toAction]
          · simp [Block.declaringTokens, kind, named, Block.toAction]

/-- The tokens that name an action are found block by block. -/
theorem namingTokens_perm (tree : SyntaxTree) (name : String) :
    ((Document.ofTree tree).namingTokens name).Perm
      (tree.blocks.flatMap fun block =>
        block.declaringTokens name ++ block.referringTokens name) := by
  have references : (Document.ofTree tree).references.Perm
      (tree.blocks.flatMap Block.references) := by
    have sorted : (Document.ofTree tree).blocks.Perm
        (tree.blocks.map DocumentBlock.ofBlock) :=
      (Document.ofTree tree).perm_blocks.trans tree.perm_blocks
    have inOrder := sorted.flatMap_right DocumentBlock.references
    simp only [List.flatMap_map, DocumentBlock.references_ofBlock] at inOrder
    exact inOrder
  have referring : (((Document.ofTree tree).references.filter
        fun entry => entry.value == name).map StringValue.token).Perm
      (tree.blocks.flatMap fun block => block.referringTokens name) := by
    have found := (references.filter fun entry =>
      entry.value == name).map StringValue.token
    rwa [List.filter_flatMap, List.map_flatMap] at found
  rw [Document.namingTokens, declarations_ofTree]
  exact (referring.append_right _).trans
    (List.perm_append_comm.trans (List.flatMap_append_perm _ _ _))

theorem mem_namingTokens {name : String} {token : Token} :
    token ∈ (Document.ofTree tree).namingTokens name ↔
      ∃ block ∈ tree.blocks, token ∈ block.declaringTokens name ∨
        token ∈ block.referringTokens name := by
  rw [(tree.namingTokens_perm name).mem_iff]
  simp only [List.mem_flatMap, List.mem_append]

theorem flatMap_namingTokens_sublist (tree : SyntaxTree) (name : String) :
    (tree.blocks.flatMap fun block =>
      block.declaringTokens name ++ block.referringTokens name).Sublist
        tree.tokens := by
  have inBlocks : (tree.blocks.flatMap fun block =>
      block.declaringTokens name ++ block.referringTokens name).Sublist
        (tree.blocks.flatMap Block.tokens) := by
    apply List.Sublist.flatMap_right
    intro block _
    exact block.namingTokens_sublist name
  exact inBlocks.trans tree.blocks_flatMap_sublist

theorem IsOrdered.nodup_namingTokens (ordered : tree.IsOrdered)
    (name : String) :
    ((Document.ofTree tree).namingTokens name).Nodup := by
  rw [(tree.namingTokens_perm name).nodup_iff]
  exact (tree.flatMap_namingTokens_sublist name).nodup ordered.nodup_tokens

theorem namingTokens_subset {name : String} {token : Token}
    (member : token ∈ (Document.ofTree tree).namingTokens name) :
    token ∈ tree.tokens := by
  rw [(tree.namingTokens_perm name).mem_iff] at member
  exact (tree.flatMap_namingTokens_sublist name).subset member

end SyntaxTree

/-- The blocks of a document are those of the tree, in their order. -/
theorem Compilation.blocks_eq (text : String) :
    (ofText text).document.blocks =
      (ofText text).tree.blocks.map DocumentBlock.ofBlock :=
  Parse.blocks_ofTokens Position.origin text.toList

end WorkflowLang
