import WorkflowLang.Proofs.Document.Renaming

/-!
# Which tokens name an action in another tree

An action is named at certain places of a block, whatever the tokens there say.  A
function on tokens that keeps kinds keeps these places.  So where no token says the
new name of an action, the tokens that say it afterwards are those that said the old
one (`SyntaxTree.mem_namingTokens_renamed`).
-/

namespace WorkflowLang

namespace Block

/-- A token stands where a block names an action: as the name it declares, or as an
entry that refers to an action. -/
def CanName (block : Block) (token : Token) : Prop :=
  (block.kind = .action ∧ token = block.name) ∨
    (token.isMissing = false ∧
      ∃ property, block.property? block.kind.referenceKey = some property ∧
        token ∈ property.value.entryTokens)

theorem names_iff {block : Block} {name : String} {token : Token} :
    (token ∈ block.declaringTokens name ∨
        token ∈ block.referringTokens name) ↔
      block.CanName token ∧ Text.unquote token.text = name := by
  constructor
  · rintro (declares | refers)
    · obtain ⟨isAction, rfl, named⟩ := mem_declaringTokens.mp declares
      exact ⟨Or.inl ⟨isAction, rfl⟩, named⟩
    · obtain ⟨named, property, found, isEntry⟩ := mem_referringTokens refers
      exact ⟨Or.inr ⟨isMissing_of_mem_referringTokens refers, property, found,
        isEntry⟩, named⟩
  · rintro ⟨⟨isAction, rfl⟩ | ⟨present, property, found, isEntry⟩, rfl⟩
    · exact Or.inl (mem_declaringTokens.mpr ⟨isAction, rfl, rfl⟩)
    · exact Or.inr (mem_referringTokens_of_entry found isEntry present)

theorem canName_mapTokens {view : Token → Token}
    (kind_view : ∀ token, (view token).kind = token.kind) {block : Block}
    {token : Token} :
    (block.mapTokens view).CanName token ↔
      ∃ original, block.CanName original ∧ view original = token := by
  have missing_view (token : Token) :
      (view token).isMissing = token.isMissing := by
    rw [Token.isMissing, kind_view, Token.isMissing]
  have kind : (block.mapTokens view).kind = block.kind := rfl
  rw [CanName, kind, property?_mapTokens kind_view]
  constructor
  · rintro (⟨isAction, rfl⟩ | ⟨present, property, found, isEntry⟩)
    · exact ⟨block.name, Or.inl ⟨isAction, rfl⟩, rfl⟩
    · obtain ⟨original, isOriginal, rfl⟩ := Option.map_eq_some_iff.mp found
      rw [Property.mapTokens, PropertyValue.entryTokens_mapTokens] at isEntry
      obtain ⟨token, inValue, rfl⟩ := List.mem_map.mp isEntry
      rw [missing_view] at present
      exact ⟨token, Or.inr ⟨present, original, isOriginal, inValue⟩, rfl⟩
  · rintro ⟨original, ⟨isAction, rfl⟩ | ⟨present, property, found, isEntry⟩,
      rfl⟩
    · exact Or.inl ⟨isAction, rfl⟩
    · refine Or.inr ⟨(missing_view original).trans present,
        property.mapTokens view, by rw [found, Option.map_some], ?_⟩
      rw [Property.mapTokens, PropertyValue.entryTokens_mapTokens]
      exact List.mem_map_of_mem isEntry

end Block

namespace SyntaxTree

variable {tree : SyntaxTree}

/-- A token stands where a tree names an action. -/
def CanName (tree : SyntaxTree) (token : Token) : Prop :=
  ∃ block ∈ tree.blocks, block.CanName token

theorem mem_namingTokens_iff_canName {name : String} {token : Token} :
    token ∈ (Document.ofTree tree).namingTokens name ↔
      tree.CanName token ∧ Text.unquote token.text = name := by
  simp only [mem_namingTokens, Block.names_iff, CanName]
  constructor
  · rintro ⟨block, isBlock, canName, named⟩
    exact ⟨⟨block, isBlock, canName⟩, named⟩
  · rintro ⟨⟨block, isBlock, canName⟩, named⟩
    exact ⟨block, isBlock, canName, named⟩

theorem canName_mapTokens {view : Token → Token}
    (kind_view : ∀ token, (view token).kind = token.kind) {token : Token} :
    (tree.mapTokens view).CanName token ↔
      ∃ original, tree.CanName original ∧ view original = token := by
  simp only [CanName, blocks_mapTokens, List.mem_map,
    exists_exists_and_eq_and, Block.canName_mapTokens kind_view]
  constructor
  · rintro ⟨block, isBlock, original, canName, rfl⟩
    exact ⟨original, ⟨block, isBlock, canName⟩, rfl⟩
  · rintro ⟨original, ⟨block, isBlock, canName⟩, rfl⟩
    exact ⟨block, isBlock, original, canName, rfl⟩

/-- The tokens that say a new name are those that said the old one. -/
theorem mem_namingTokens_renamed {view : Token → Token} {old new : String}
    (kind_view : ∀ token, (view token).kind = token.kind)
    (text_view : ∀ token, (view token).text =
      (token.renameAmong ((Document.ofTree tree).namingTokens old) new).text)
    (fresh : (Document.ofTree tree).namingTokens new = []) {token : Token} :
    token ∈ (Document.ofTree (tree.mapTokens view)).namingTokens new ↔
      ∃ original ∈ (Document.ofTree tree).namingTokens old,
        view original = token := by
  rw [mem_namingTokens_iff_canName, canName_mapTokens kind_view]
  constructor
  · rintro ⟨⟨original, canName, rfl⟩, named⟩
    refine ⟨original, ?_, rfl⟩
    by_contra other
    rw [text_view, Token.renameAmong_of_notMem other] at named
    have saysNew : original ∈ (Document.ofTree tree).namingTokens new :=
      mem_namingTokens_iff_canName.mpr ⟨canName, named⟩
    rw [fresh] at saysNew
    contradiction
  · rintro ⟨original, names, rfl⟩
    have canName := (mem_namingTokens_iff_canName.mp names).1
    refine ⟨⟨original, canName, rfl⟩, ?_⟩
    rw [text_view, Token.renameAmong_of_mem names]
    exact Text.unquote_quoted new

end SyntaxTree

end WorkflowLang
