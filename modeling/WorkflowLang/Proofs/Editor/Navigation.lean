import WorkflowLang.Editor.Hover
import WorkflowLang.Proofs.Compilation.ActionIndex
import WorkflowLang.Proofs.Editor.Renaming

/-!
# Navigating from the name of an action

Going to the definition, listing the references, the hover text and both steps of
a renaming start from the name at a position.  Each of them has an answer exactly
when the name has a symbol, and the string at the position is itself one of those
that say the name.  So what one feature offers the others can do
(`Compilation.navigates`).
-/

namespace WorkflowLang

namespace DocumentBlock

variable {block : DocumentBlock} {position : Position} {target : ActionTarget}

theorem exists_action_of_declaredTarget?
    (found : block.declaredTarget? position = some target) :
    ∃ action, block = .action action ∧
      action.block.name.span.Contains position ∧
        target = ⟨action.name, action.block.name.span⟩ := by
  cases block with
  | workflow declared => contradiction
  | action declared =>
      simp only [declaredTarget?, Option.ite_none_right_eq_some,
        Option.some.injEq] at found
      obtain ⟨⟨here, -⟩, rfl⟩ := found
      exact ⟨declared, rfl, here, rfl⟩

theorem exists_entry_of_referencedTarget?
    (found : block.referencedTarget? position = some target) :
    ∃ entry ∈ block.references, entry.span.Contains position ∧
      target = ⟨entry.value, entry.span⟩ := by
  obtain ⟨entry, first, rfl⟩ := Option.map_eq_some_iff.mp found
  have here := List.find?_some first
  exact ⟨entry, List.mem_of_find?_eq_some first, of_decide_eq_true here, rfl⟩

end DocumentBlock

namespace Document

variable {document : Document}

theorem mem_blocks {block : DocumentBlock} :
    block ∈ document.blocks ↔
      (∃ workflow ∈ document.workflows, DocumentBlock.workflow workflow = block) ∨
        ∃ action ∈ document.actions, DocumentBlock.action action = block := by
  rw [document.perm_blocks.mem_iff, List.mem_append, List.mem_map,
    List.mem_map]

theorem action_mem_blocks {action : Action} :
    .action action ∈ document.blocks ↔ action ∈ document.actions := by
  simp [mem_blocks]

/-- The tokens that name an action are those of the entries that refer to it and
those of the blocks that declare it. -/
theorem mem_namingTokens_iff {name : String} {token : Token} :
    token ∈ document.namingTokens name ↔
      (∃ entry ∈ document.references, entry.value = name ∧
          entry.token = token) ∨
        ∃ action ∈ document.actions, action.name = name ∧
          action.block.name = token := by
  simp [namingTokens, and_assoc]

/-- The name found at a position is that of a token that stands there. -/
theorem exists_names_of_targetAt? {position : Position} {target : ActionTarget}
    (found : document.targetAt? position = some target) :
    ∃ token ∈ document.namingTokens target.name,
      token.span = target.span ∧ token.span.Contains position := by
  unfold targetAt? at found
  split at found
  · contradiction
  · next block touched =>
    have isBlock := List.mem_of_find?_eq_some touched
    split at found
    · next isDeclared =>
      obtain rfl := Option.some.inj found
      obtain ⟨action, rfl, here, rfl⟩ :=
        DocumentBlock.exists_action_of_declaredTarget? isDeclared
      have isAction := action_mem_blocks.mp isBlock
      exact ⟨_, mem_namingTokens_iff.mpr
        (Or.inr ⟨action, isAction, rfl, rfl⟩), rfl, here⟩
    · obtain ⟨entry, member, here, rfl⟩ :=
        DocumentBlock.exists_entry_of_referencedTarget? found
      have isEntry : entry ∈ document.references :=
        List.mem_flatMap.mpr ⟨block, isBlock, member⟩
      exact ⟨_, mem_namingTokens_iff.mpr
        (Or.inl ⟨entry, isEntry, rfl, rfl⟩), rfl, here⟩

/-- A name has a symbol exactly when an action is found for it. -/
theorem isSome_symbol? (document : Document) (name : String) :
    (document.symbol? name).isSome =
      (document.actions.find? fun action => action.name == name).isSome := by
  simp [symbol?, definition?]

end Document

namespace Compilation

variable {compilation : Compilation} {position : Position}

theorem symbolAt?_eq_some {symbol : ActionSymbol} :
    compilation.symbolAt? position = some symbol ↔
      ∃ target, compilation.document.targetAt? position = some target ∧
        compilation.document.symbol? target.name = some symbol :=
  Option.bind_eq_some_iff

theorem isSome_definitionAt? :
    (compilation.definitionAt? position).isSome =
      (compilation.symbolAt? position).isSome :=
  Option.isSome_map

theorem isSome_renameSpan? :
    (compilation.renameSpan? position).isSome =
      (compilation.symbolAt? position).isSome := by
  unfold renameSpan? symbolAt?
  cases compilation.document.targetAt? position with
  | none => rfl
  | some target => simp

theorem isSome_rename? {newName : String}
    (allowed : isActionName newName = true) :
    (compilation.rename? position newName).isSome =
      (compilation.symbolAt? position).isSome := by
  rw [rename?, if_pos allowed]
  cases compilation.symbolAt? position with
  | none => rfl
  | some symbol => rfl

theorem referencesAt_ne_nil :
    compilation.referencesAt position true ≠ [] ↔
      (compilation.symbolAt? position).isSome = true := by
  unfold referencesAt
  cases compilation.symbolAt? position with
  | none => simp
  | some symbol => simp

theorem isSome_actionHover? :
    (compilation.actionHover? position).isSome =
      (compilation.symbolAt? position).isSome := by
  unfold actionHover? symbolAt?
  cases compilation.document.targetAt? position with
  | none => rfl
  | some target =>
      rw [Option.isSome_map, Option.bind_some,
        Document.isSome_symbol?]

/-- Away from keywords a hover text is that of an action. -/
theorem hover?_eq_actionHover?
    (noKeyword : ∀ token ∈ compilation.tokens, token.kind.isKeyword = true →
      ¬token.span.Contains position) :
    compilation.hover? position = compilation.actionHover? position := by
  have noneFound : compilation.keywordAt? position = none := by
    refine List.find?_eq_none.mpr fun token isToken touched => ?_
    rw [Bool.and_eq_true, decide_eq_true_eq] at touched
    exact noKeyword token isToken touched.1 touched.2
  rw [hover?, noneFound]

/-- The features that start from the name of an action agree on whether there is
one at a position, and on the places that name it. -/
structure Navigates (compilation : Compilation) (position : Position)
    (newName : String) : Prop where
  renameSpan_iff : (compilation.renameSpan? position).isSome ↔
    (compilation.definitionAt? position).isSome
  rename_iff : (compilation.rename? position newName).isSome ↔
    (compilation.definitionAt? position).isSome
  references_iff : compilation.referencesAt position true ≠ [] ↔
    (compilation.definitionAt? position).isSome
  /-- The definition is where the first action of this name declares it. -/
  definition_eq : ∀ definition,
    compilation.definitionAt? position = some definition →
      ∃ target action,
        compilation.document.targetAt? position = some target ∧
          compilation.document.Counts action ∧ action.name = target.name ∧
            definition = action.block.name.span
  references_eq : ∀ definition,
    compilation.definitionAt? position = some definition →
      compilation.referencesAt position true =
        definition :: compilation.referencesAt position false
  /-- A renaming edits the references, then the names of all actions that have the
  name. -/
  edits_eq : ∀ edits, compilation.rename? position newName = some edits →
    ∃ target, compilation.document.targetAt? position = some target ∧
      edits.map TextEdit.span =
        (compilation.referencesAt position false).map compilation.innerSpan ++
          (compilation.document.actions.filter fun action =>
              action.name == target.name).map
            fun action => compilation.innerSpan action.block.name.span
  /-- What is offered for renaming is renamed. -/
  renameSpan_mem : ∀ span edits,
    compilation.renameSpan? position = some span →
      compilation.rename? position newName = some edits →
        span ∈ edits.map TextEdit.span
  /-- Where no keyword is, hovering shows the action. -/
  hover_iff :
    (∀ token ∈ compilation.tokens, token.kind.isKeyword = true →
      ¬token.span.Contains position) →
        ((compilation.hover? position).isSome ↔
          (compilation.definitionAt? position).isSome)

theorem definitionAt?_eq {definition : Span}
    (defined : compilation.definitionAt? position = some definition) :
    ∃ target action,
      compilation.document.targetAt? position = some target ∧
        compilation.document.Counts action ∧ action.name = target.name ∧
          definition = action.block.name.span := by
  obtain ⟨symbol, found, rfl⟩ := Option.map_eq_some_iff.mp defined
  obtain ⟨target, isTarget, isSymbol⟩ := symbolAt?_eq_some.mp found
  obtain ⟨action, counts, named, rfl⟩ :=
    Document.symbol?_eq_some.mp isSymbol
  exact ⟨target, action, isTarget, counts, named, rfl⟩

theorem referencesAt_eq_cons {definition : Span}
    (defined : compilation.definitionAt? position = some definition) :
    compilation.referencesAt position true =
      definition :: compilation.referencesAt position false := by
  obtain ⟨symbol, found, rfl⟩ := Option.map_eq_some_iff.mp defined
  simp [referencesAt, found]

theorem map_span_rename? {newName : String} {edits : List TextEdit}
    (renames : compilation.rename? position newName = some edits) :
    ∃ target, compilation.document.targetAt? position = some target ∧
      edits.map TextEdit.span =
        (compilation.referencesAt position false).map compilation.innerSpan ++
          (compilation.document.actions.filter fun action =>
              action.name == target.name).map
            fun action => compilation.innerSpan action.block.name.span := by
  unfold rename? at renames
  split at renames
  · split at renames
    · contradiction
    · next symbol found =>
      obtain rfl := Option.some.inj renames
      obtain ⟨target, isTarget, isSymbol⟩ := symbolAt?_eq_some.mp found
      obtain ⟨action, -, named, rfl⟩ :=
        Document.symbol?_eq_some.mp isSymbol
      refine ⟨target, isTarget, ?_⟩
      simp only [referencesAt, found, declarations, List.map_map,
        List.map_append]
      rfl
  · contradiction

/-- The string at the position is one of those that say the name, so it is
renamed with them. -/
theorem renameSpan?_mem_rename? {newName : String} {span : Span}
    {edits : List TextEdit}
    (offered : compilation.renameSpan? position = some span)
    (renames : compilation.rename? position newName = some edits) :
    span ∈ edits.map TextEdit.span := by
  obtain ⟨target, isTarget, rfl⟩ := rename?_eq_some renames
  obtain ⟨token, names, here, -⟩ :=
    Document.exists_names_of_targetAt? isTarget
  rw [renameSpan?, isTarget] at offered
  obtain ⟨-, -, rfl⟩ := Option.map_eq_some_iff.mp offered
  rw [← here]
  exact List.mem_map_of_mem (f := TextEdit.span) (List.mem_map_of_mem names)

theorem navigates (compilation : Compilation) (position : Position)
    {newName : String} (allowed : isActionName newName = true) :
    compilation.Navigates position newName where
  renameSpan_iff := by rw [isSome_renameSpan?, isSome_definitionAt?]
  rename_iff := by rw [isSome_rename? allowed, isSome_definitionAt?]
  references_iff := by rw [referencesAt_ne_nil, isSome_definitionAt?]
  definition_eq _ := definitionAt?_eq
  references_eq _ := referencesAt_eq_cons
  edits_eq _ := map_span_rename?
  renameSpan_mem _ _ := renameSpan?_mem_rename?
  hover_iff noKeyword := by
    rw [hover?_eq_actionHover? noKeyword, isSome_actionHover?,
      isSome_definitionAt?]

/-- Two actions of one name, and references to it from a workflow and from an
action. -/
def sharedName : String :=
  "workflow \"a\" \x7bon=\"push\" resolves=\"a\"\x7d\n" ++
    "action \"a\" \x7buses=\"./a\"\x7d action \"a\" \x7buses=\"./b\"\x7d\n" ++
    "action \"b\" \x7buses=\"./c\" needs=[\"b\",\"a\"]\x7d"

theorem navigates_sharedName :
    isActionName "b c" = true ∧
      (ofText sharedName).renameSpan? ⟨2, 34⟩ = some ⟨⟨2, 35⟩, ⟨2, 36⟩⟩ ∧
        (∀ token ∈ (ofText sharedName).tokens, token.kind.isKeyword = true →
          ¬token.span.Contains ⟨2, 34⟩) ∧
          (ofText sharedName).Navigates ⟨2, 34⟩ "b c" := by
  have allowed : isActionName "b c" = true := by decide
  have offered : (ofText sharedName).renameSpan? ⟨2, 34⟩ =
      some ⟨⟨2, 35⟩, ⟨2, 36⟩⟩ := by
    have blocks : (ofText sharedName).document.blocks =
        (ofText sharedName).tree.blocks.map DocumentBlock.ofBlock :=
      SyntaxTree.blocks_ofTree (by decide +kernel)
    simp only [renameSpan?, Document.targetAt?, Document.symbol?,
      Document.referencesTo, Document.references, blocks]
    decide +kernel
  exact ⟨allowed, offered, by decide +kernel,
    navigates (ofText sharedName) ⟨2, 34⟩ allowed⟩

end Compilation
end WorkflowLang
