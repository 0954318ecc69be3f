import WorkflowLang.Proofs.Editor.Navigation
import WorkflowLang.Proofs.Editor.StringEdits
import WorkflowLang.Proofs.Tree.Extent

/-!
# The name around a cursor

A position inside a token touches no other token.  Blocks that follow each other
share no position inside a token of theirs, so the first block that touches the
position is the one with the token.  If the token names an action, the name is found
there (`Compilation.targetAt?_of_surrounds`).
-/

namespace WorkflowLang

/-- A position is behind the start of a token and in front of its finish. -/
def Token.Surrounds (token : Token) (position : Position) : Prop :=
  ¬position ≤ token.span.start ∧ ¬token.span.finish ≤ position

/-- A position inside a token touches this token only. -/
theorem Scan.eq_of_surrounds {start position : Position} {text : List Char}
    {token other : Token} (isToken : token ∈ (scanFrom start text).tokens)
    (isOther : other ∈ (scanFrom start text).tokens)
    (surrounds : token.Surrounds position)
    (touches : other.span.Contains position) : other = token := by
  by_contra distinct
  rcases isBefore_or_isBefore isOther isToken distinct with before | behind
  · exact surrounds.1 (Position.le_trans touches.2 before)
  · exact surrounds.2 (Position.le_trans behind touches.1)

namespace Block

variable {block : Block} {token : Token} {position : Position}

/-- A block touches the positions inside its tokens. -/
theorem contains_of_surrounds (follow : block.tokens.Pairwise Token.IsBefore)
    (wide : ∀ token ∈ block.tokens, token.IsWide)
    (inBlock : token ∈ block.tokens) (surrounds : token.Surrounds position) :
    block.span.Contains position := by
  constructor
  · have startsBlock : block.keyword.span.start ≤ token.span.start := by
      obtain ⟨first, -⟩ := List.pairwise_cons.mp follow
      rcases List.mem_cons.mp inBlock with rfl | isLater
      · exact Position.le_refl _
      · exact Position.le_trans (wide block.keyword (by simp [tokens])).start_le_finish
          (first token isLater)
    have startsToken :=
      (Position.le_total token.span.start position).resolve_right surrounds.1
    exact Position.le_trans block.start_span_le
      (Position.le_trans startsBlock startsToken)
  · have endsBlock : token.span.finish ≤ block.closeBracket.span.finish := by
      obtain ⟨-, -, last⟩ := List.pairwise_append.mp follow
      rcases List.mem_append.mp inBlock with isEarlier | isLast
      · exact Position.le_trans (last token isEarlier _ (by simp))
          (wide block.closeBracket (by simp [tokens])).start_le_finish
      · rw [List.mem_singleton.mp isLast]
        exact Position.le_refl _
    have endsToken :=
      (Position.le_total position token.span.finish).resolve_right surrounds.2
    exact Position.le_trans endsToken
      (Position.le_trans endsBlock block.le_finish_span)

/-- A block in front of a token does not touch the positions inside it. -/
theorem not_contains_of_before
    (before : ∀ earlier ∈ block.tokens, earlier.IsBefore token)
    (surrounds : token.Surrounds position) :
    ¬block.span.Contains position := by
  intro touches
  obtain ⟨last, isLast, finish⟩ := block.exists_finish
  have inFront := before last isLast
  rw [Token.IsBefore, ← finish] at inFront
  exact surrounds.1 (Position.le_trans touches.2 inFront)

end Block

theorem DocumentBlock.exists_referencedTarget? {block : DocumentBlock}
    {position : Position} {entry : StringValue}
    (isEntry : entry ∈ block.references)
    (touches : entry.span.Contains position) :
    ∃ target, block.referencedTarget? position = some target := by
  cases found : block.references.find? fun entry =>
      decide (entry.span.Contains position) with
  | none =>
      have apart := List.find?_eq_none.mp found entry isEntry
      exact absurd touches (by simpa using apart)
  | some first =>
      exact ⟨_, by rw [referencedTarget?, found, Option.map_some]⟩

namespace Compilation

variable {text : String} {position : Position} {token : Token}

theorem mem_tokens_of_mem_tree (clean : (ofText text).hasSyntaxErrors = false)
    (inTree : token ∈ (ofText text).tree.tokens) :
    token ∈ (ofText text).tokens := by
  rw [tokens_tree clean] at inTree
  exact (List.mem_filter.mp inTree).1

theorem pairwise_blocks (clean : (ofText text).hasSyntaxErrors = false) :
    ((ofText text).tree.blocks.flatMap Block.tokens).Pairwise
      Token.IsBefore := by
  apply List.Pairwise.sublist (ofText text).tree.blocks_flatMap_sublist
  rw [tokens_tree clean]
  exact (Scan.pairwise_isBefore _ _).filter _

/-- The first block that touches a position inside a token is the one with the
token. -/
theorem find?_block (clean : (ofText text).hasSyntaxErrors = false)
    {block : Block} (isBlock : block ∈ (ofText text).tree.blocks)
    (inBlock : token ∈ block.tokens) (surrounds : token.Surrounds position) :
    ((ofText text).document.blocks.find? fun declared =>
        decide (declared.block.span.Contains position)) =
      some (DocumentBlock.ofBlock block) := by
  have blocks : (ofText text).document.blocks =
      (ofText text).tree.blocks.map DocumentBlock.ofBlock :=
    (isOrdered clean).blocks_ofTree
  have follow := List.pairwise_flatMap.mp (pairwise_blocks clean)
  have wide : ∀ token ∈ block.tokens, token.IsWide := by
    intro token inBlock
    apply Scan.isWide_of_mem
    apply mem_tokens_of_mem_tree clean
    apply (ofText text).tree.blocks_flatMap_sublist.subset
    exact List.mem_flatMap.mpr ⟨block, isBlock, inBlock⟩
  obtain ⟨before, after, split⟩ := List.append_of_mem isBlock
  rw [split] at follow
  rw [blocks, split, List.find?_map, Option.map_eq_some_iff]
  refine ⟨block, List.find?_eq_some_iff_append.mpr
    ⟨?_, before, after, rfl, fun earlier isEarlier => ?_⟩, rfl⟩
  · have touches := Block.contains_of_surrounds
      (follow.1 block (by simp)) wide inBlock surrounds
    simpa using touches
  · have inFront := (List.pairwise_append.mp follow.2).2.2 earlier isEarlier
      block (by simp)
    have apart := Block.not_contains_of_before
      (fun other inEarlier => inFront other inEarlier token inBlock) surrounds
    simpa using apart

/-- Inside a token that names an action, some name is found. -/
theorem exists_targetAt? (clean : (ofText text).hasSyntaxErrors = false)
    {name : String}
    (names : token ∈ (ofText text).document.namingTokens name)
    (touches : token.span.Contains position)
    (surrounds : token.Surrounds position) :
    ∃ target, (ofText text).document.targetAt? position = some target := by
  obtain ⟨block, isBlock, naming⟩ := SyntaxTree.mem_namingTokens.mp names
  have inBlock := (block.namingTokens_sublist name).subset
    (List.mem_append.mpr naming)
  rw [Document.targetAt?, find?_block clean isBlock inBlock surrounds]
  cases declared : (DocumentBlock.ofBlock block).declaredTarget? position with
  | some target => exact ⟨target, by simp only [declared]⟩
  | none =>
      simp only [declared]
      rcases naming with declares | refers
      · obtain ⟨isAction, rfl, -⟩ := Block.mem_declaringTokens.mp declares
        have present := isMissing_eq_false_of_names clean names
        simp [DocumentBlock.ofBlock, isAction, DocumentBlock.declaredTarget?,
          Block.toAction, touches, present] at declared
      · obtain ⟨entry, isEntry, rfl⟩ := List.mem_map.mp refers
        have isReference : entry ∈
            (DocumentBlock.ofBlock block).references := by
          rw [DocumentBlock.references_ofBlock]
          exact (List.mem_filter.mp isEntry).1
        exact DocumentBlock.exists_referencedTarget? isReference touches

/-- Inside a token that names an action, the name is found. -/
theorem targetAt?_of_surrounds (clean : (ofText text).hasSyntaxErrors = false)
    {name : String}
    (names : token ∈ (ofText text).document.namingTokens name)
    (surrounds : token.Surrounds position) :
    (ofText text).document.targetAt? position = some ⟨name, token.span⟩ := by
  have touches : token.span.Contains position :=
    ⟨(Position.le_total _ _).resolve_right surrounds.1,
      (Position.le_total _ _).resolve_right surrounds.2⟩
  obtain ⟨target, found⟩ := exists_targetAt? clean names touches surrounds
  obtain ⟨other, otherNames, here, otherTouches⟩ :=
    Document.exists_names_of_targetAt? found
  obtain rfl := Scan.eq_of_surrounds (mem_tokens_of_names clean names)
    (mem_tokens_of_names clean otherNames) surrounds otherTouches
  have sameName := (unquote_of_names otherNames).symm.trans
    (unquote_of_names names)
  rw [found, here, ← sameName]

end Compilation
end WorkflowLang
