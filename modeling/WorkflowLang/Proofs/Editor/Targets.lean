import WorkflowLang.Proofs.Editor.Navigation
import WorkflowLang.Proofs.Editor.StringEdits
import WorkflowLang.Proofs.Tree.Reach

/-!
# The string under a cursor

A block without its end reaches as far as the keyword of the next block, but no
further, and the strings of the next block come behind that keyword.  So the first
block that touches a position behind the start of a string is the one with the
string, with or without syntax errors.  Within the block the strings follow each
other, so the first one that touches the position is the right one
(`Compilation.findsTargets`).
-/

namespace WorkflowLang

/-- A position is behind the start of a span and not behind its finish. -/
def Span.HasInside (span : Span) (position : Position) : Prop :=
  ¬position ≤ span.start ∧ position ≤ span.finish

theorem Span.HasInside.contains {span : Span} {position : Position}
    (inside : span.HasInside position) : span.Contains position :=
  ⟨(Position.le_total _ _).resolve_right inside.1, inside.2⟩

theorem Span.HasInside.not_contains {span earlier : Span}
    {position : Position} (inside : span.HasInside position)
    (before : earlier.finish ≤ span.start) : ¬earlier.Contains position :=
  fun touches => inside.1 (Position.le_trans touches.2 before)

/-- The strings that name actions: the names that blocks declare and the entries
that refer to them. -/
inductive Document.HasTarget (document : Document) : ActionTarget → Prop where
  | declared {action : Action} (isAction : action ∈ document.actions)
      (present : action.block.name.isMissing = false) :
      HasTarget document ⟨action.name, action.block.name.span⟩
  | referenced {entry : StringValue} (isEntry : entry ∈ document.references) :
      HasTarget document ⟨entry.value, entry.span⟩

theorem DocumentBlock.isMissing_of_declaredTarget? {block : DocumentBlock}
    {position : Position} {target : ActionTarget}
    (found : block.declaredTarget? position = some target) :
    block.block.name.isMissing = false := by
  cases block with
  | workflow declared => contradiction
  | action declared =>
      simp only [declaredTarget?, Option.ite_none_right_eq_some] at found
      exact found.1.2

theorem Block.naming_sublist (block : Block) :
    ([block.keyword, block.name] ++
      block.references.map StringValue.token).Sublist block.tokens := by
  have opens : [block.keyword, block.name].Sublist
      [block.keyword, block.name, block.openBracket] :=
    List.sublist_append_left [block.keyword, block.name] [block.openBracket]
  exact (opens.append block.map_token_references_sublist).trans
    (List.sublist_append_left _ _)

namespace Compilation

variable {text : String} {block : Block} {position : Position}

theorem mem_references {entry : StringValue} :
    entry ∈ (ofText text).document.references ↔
      ∃ block ∈ (ofText text).tree.blocks, entry ∈ block.references := by
  rw [Document.references, blocks_eq, List.mem_flatMap]
  simp [DocumentBlock.references_ofBlock]

section

variable (isBlock : block ∈ (ofText text).tree.blocks)
include isBlock

theorem tokens_sublist_of_mem_blocks :
    block.tokens.Sublist (ofText text).tree.tokens := by
  have single := (List.singleton_sublist.mpr isBlock).flatMap Block.tokens
  rw [List.flatMap_singleton] at single
  exact single.trans (ofText text).tree.blocks_flatMap_sublist

theorem isMissing_keyword : block.keyword.isMissing = false := by
  have kind := Parse.kind_keyword_of_mem_blocks isBlock
  rw [Token.isMissing, kind]
  cases block.kind <;> rfl

/-- The keyword and the entries of a block follow each other. -/
theorem follow_references :
    Token.Follow
      (block.keyword :: block.references.map StringValue.token) := by
  have inBlock : (block.keyword ::
      block.references.map StringValue.token).Sublist
        ([block.keyword, block.name] ++
          block.references.map StringValue.token) :=
    (List.sublist_cons_self _ _).cons_cons _
  refine Parse.follow_of_present ((inBlock.trans block.naming_sublist).trans
    (tokens_sublist_of_mem_blocks isBlock)) (List.forall_mem_cons.mpr
      ⟨isMissing_keyword isBlock, List.forall_mem_map.mpr fun entry => ?_⟩)
  exact Block.isMissing_of_mem_references

/-- So does the name between them, if it is there. -/
theorem follow_naming (present : block.name.isMissing = false) :
    Token.Follow ([block.keyword, block.name] ++
      block.references.map StringValue.token) := by
  refine Parse.follow_of_present (block.naming_sublist.trans
    (tokens_sublist_of_mem_blocks isBlock)) (List.forall_mem_append.mpr
      ⟨?_, List.forall_mem_map.mpr fun entry => ?_⟩)
  · simp [isMissing_keyword isBlock, present]
  · exact Block.isMissing_of_mem_references

/-- The first block that touches a position behind its keyword is the block with
the keyword. -/
theorem find?_block_of_covers {span : Span} (covers : block.span.Covers span)
    (behind : block.keyword.span.finish ≤ span.start)
    (inside : span.HasInside position) :
    ((ofText text).document.blocks.find? fun declared =>
        decide (declared.block.span.Contains position)) =
      some (DocumentBlock.ofBlock block) := by
  have reach : (ofText text).tree.blocks.Pairwise fun first second =>
      first.span.finish ≤ second.keyword.span.finish :=
    Parse.pairwise_reach Position.origin text.toList
  obtain ⟨before, after, split⟩ := List.append_of_mem isBlock
  rw [split] at reach
  rw [blocks_eq, split, List.find?_map, Option.map_eq_some_iff]
  refine ⟨block, List.find?_eq_some_iff_append.mpr
    ⟨?_, before, after, rfl, fun earlier isEarlier => ?_⟩, rfl⟩
  · have touches : block.span.Contains position :=
      ⟨Position.le_trans covers.1 inside.contains.1,
        Position.le_trans inside.2 covers.2⟩
    simpa using touches
  · have ends := (List.pairwise_append.mp reach).2.2 earlier isEarlier block
      List.mem_cons_self
    have apart := inside.not_contains (Position.le_trans ends behind)
    simpa using apart

theorem targetAt?_of_declared (isAction : block.kind = .action)
    (present : block.name.isMissing = false)
    (inside : block.name.span.HasInside position) :
    (ofText text).document.targetAt? position =
      some ⟨Text.unquote block.name.text, block.name.span⟩ := by
  have follow := (follow_naming isBlock present).pairwise
  have behind : block.keyword.IsBefore block.name :=
    (List.pairwise_cons.mp follow).1 block.name List.mem_cons_self
  have declares : (DocumentBlock.ofBlock block).declaredTarget? position =
      some ⟨Text.unquote block.name.text, block.name.span⟩ := by
    simp [DocumentBlock.ofBlock, isAction, DocumentBlock.declaredTarget?,
      Block.toAction, inside.contains, present]
  rw [Document.targetAt?, find?_block_of_covers isBlock
    (Block.covers (by simp [Block.tokens])) behind inside]
  simp only [declares]

theorem declaredTarget?_eq_none {entry : StringValue}
    (isEntry : entry ∈ block.references)
    (inside : entry.span.HasInside position) :
    (DocumentBlock.ofBlock block).declaredTarget? position = none := by
  have apart : block.name.isMissing = false →
      ¬block.name.span.Contains position := by
    intro present
    have follow := (follow_naming isBlock present).pairwise
    have before : block.name.IsBefore entry.token :=
      (List.pairwise_append.mp follow).2.2 block.name (by simp) entry.token
        (List.mem_map_of_mem isEntry)
    exact inside.not_contains before
  unfold DocumentBlock.ofBlock
  split
  · rfl
  · refine if_neg fun touched => ?_
    exact apart touched.2 touched.1

theorem referencedTarget?_eq_some {entry : StringValue}
    (isEntry : entry ∈ block.references)
    (inside : entry.span.HasInside position) :
    (DocumentBlock.ofBlock block).referencedTarget? position =
      some ⟨entry.value, entry.span⟩ := by
  have pairwise := List.pairwise_map.mp
    (List.pairwise_cons.mp (follow_references isBlock).pairwise).2
  obtain ⟨before, after, split⟩ := List.append_of_mem isEntry
  rw [split] at pairwise
  rw [DocumentBlock.referencedTarget?, DocumentBlock.references_ofBlock, split,
    Option.map_eq_some_iff]
  refine ⟨entry, List.find?_eq_some_iff_append.mpr
    ⟨by simpa using inside.contains, before, after, rfl,
      fun earlier isEarlier => ?_⟩, rfl⟩
  have ends : earlier.span.finish ≤ entry.span.start :=
    (List.pairwise_append.mp pairwise).2.2 earlier isEarlier entry
      List.mem_cons_self
  have apart := inside.not_contains ends
  simpa using apart

theorem targetAt?_of_referenced {entry : StringValue}
    (isEntry : entry ∈ block.references)
    (inside : entry.span.HasInside position) :
    (ofText text).document.targetAt? position =
      some ⟨entry.value, entry.span⟩ := by
  have isToken : entry.token ∈ block.references.map StringValue.token :=
    List.mem_map_of_mem isEntry
  have behind : block.keyword.IsBefore entry.token :=
    (List.pairwise_cons.mp (follow_references isBlock).pairwise).1 _ isToken
  have covers : block.span.Covers entry.span :=
    Block.covers (block.naming_sublist.subset
      (List.mem_append_right _ isToken))
  rw [Document.targetAt?, find?_block_of_covers isBlock covers behind inside]
  simp only [declaredTarget?_eq_none isBlock isEntry inside]
  exact referencedTarget?_eq_some isBlock isEntry inside

end

theorem mem_actions {action : Action} :
    action ∈ (ofText text).document.actions ↔
      ∃ block ∈ (ofText text).tree.blocks,
        block.kind = .action ∧ block.toAction = action := by
  simp [ofText, Document.ofTree, and_assoc]

/-- A string that names an action is a string of the text. -/
theorem exists_string_of_hasTarget {target : ActionTarget}
    (isTarget : (ofText text).document.HasTarget target) :
    ∃ token ∈ (ofText text).tokens, token.kind = .string ∧
      target = ⟨Text.unquote token.text, token.span⟩ := by
  cases isTarget with
  | @declared action isAction present =>
      have names : action.block.name ∈
          (ofText text).document.namingTokens action.name :=
        Document.mem_namingTokens_iff.mpr
          (Or.inr ⟨action, isAction, rfl, rfl⟩)
      exact ⟨_, mem_tokens_of_present names present,
        isString_of_present names present, by rw [unquote_of_names names]⟩
  | @referenced entry isEntry =>
      have names : entry.token ∈
          (ofText text).document.namingTokens entry.value :=
        Document.mem_namingTokens_iff.mpr
          (Or.inl ⟨entry, isEntry, rfl, rfl⟩)
      obtain ⟨block, -, inBlock⟩ := mem_references.mp isEntry
      have present := Block.isMissing_of_mem_references inBlock
      refine ⟨_, mem_tokens_of_present names present,
        isString_of_present names present, ?_⟩
      rw [unquote_of_names names]
      rfl

theorem targetAt?_of_hasTarget {target : ActionTarget}
    (isTarget : (ofText text).document.HasTarget target)
    (inside : target.span.HasInside position) :
    (ofText text).document.targetAt? position = some target := by
  cases isTarget with
  | declared isAction present =>
      obtain ⟨block, isBlock, kind, rfl⟩ := mem_actions.mp isAction
      exact targetAt?_of_declared isBlock kind present inside
  | referenced isEntry =>
      obtain ⟨block, isBlock, inBlock⟩ := mem_references.mp isEntry
      exact targetAt?_of_referenced isBlock inBlock inside

/-- What is found is such a string, and it touches the position. -/
theorem hasTarget_of_targetAt? {document : Document} {target : ActionTarget}
    (found : document.targetAt? position = some target) :
    document.HasTarget target ∧ target.span.Contains position := by
  unfold Document.targetAt? at found
  split at found
  · contradiction
  · next block touched =>
    have isBlock := List.mem_of_find?_eq_some touched
    split at found
    · next isDeclared =>
      obtain rfl := Option.some.inj found
      have present := DocumentBlock.isMissing_of_declaredTarget? isDeclared
      obtain ⟨action, rfl, here, rfl⟩ :=
        DocumentBlock.exists_action_of_declaredTarget? isDeclared
      exact ⟨.declared (Document.action_mem_blocks.mp isBlock) present, here⟩
    · obtain ⟨entry, member, here, rfl⟩ :=
        DocumentBlock.exists_entry_of_referencedTarget? found
      exact ⟨.referenced (List.mem_flatMap.mpr ⟨block, isBlock, member⟩), here⟩

/-- The features that start from a position depend on the name found there. -/
theorem symbolAt?_congr {compilation : Compilation}
    {first second : Position} {target other : ActionTarget}
    (atFirst : compilation.document.targetAt? first = some target)
    (atSecond : compilation.document.targetAt? second = some other)
    (sameName : target.name = other.name) :
    compilation.symbolAt? first = compilation.symbolAt? second := by
  rw [symbolAt?, symbolAt?, atFirst, atSecond, Option.bind_some,
    Option.bind_some, sameName]

/-- The string under a cursor is found exactly. -/
structure FindsTargets (compilation : Compilation) : Prop where
  isString : ∀ target, compilation.document.HasTarget target →
    ∃ token ∈ compilation.tokens, token.kind = .string ∧
      target = ⟨Text.unquote token.text, token.span⟩
  found : ∀ target position, compilation.document.HasTarget target →
    target.span.HasInside position →
      compilation.document.targetAt? position = some target
  sound : ∀ target position,
    compilation.document.targetAt? position = some target →
      compilation.document.HasTarget target ∧ target.span.Contains position
  /-- Inside strings with the same value the same is found and renamed. -/
  agree : ∀ target other first second,
    compilation.document.HasTarget target →
      compilation.document.HasTarget other →
        target.name = other.name → target.span.HasInside first →
          other.span.HasInside second →
            compilation.referencesAt first = compilation.referencesAt second ∧
              compilation.rename? first = compilation.rename? second

/-- Whatever the text, with or without syntax errors, a position behind the start
of a string that names an action and not behind its finish leads to that string,
and no position leads to anything else than such a string. -/
theorem findsTargets (text : String) : (ofText text).FindsTargets where
  isString _ := exists_string_of_hasTarget
  found _ _ := targetAt?_of_hasTarget
  sound _ _ := hasTarget_of_targetAt?
  agree target other first second isTarget isOther sameName inside
      otherInside := by
    have sameSymbol := symbolAt?_congr
      (targetAt?_of_hasTarget isTarget inside)
      (targetAt?_of_hasTarget isOther otherInside) sameName
    constructor
    · funext includeDeclaration
      rw [referencesAt, referencesAt, sameSymbol]
    · funext newName
      rw [rename?, rename?, sameSymbol]

-- The first action has no braces and ends with the keyword of the second.
example : (ofText "action \"a\"action\"b\"").document.targetAt? ⟨0, 19⟩ =
    some ⟨"b", ⟨⟨0, 16⟩, ⟨0, 19⟩⟩⟩ := by
  rw [Document.targetAt?, blocks_eq]
  decide +kernel

end Compilation
end WorkflowLang
