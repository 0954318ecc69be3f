import WorkflowLang.Proofs.Tree.Acceptance
import WorkflowLang.Proofs.Tree.Localization
import WorkflowLang.Proofs.Token.Order
import WorkflowLang.Document.Binding

/-!
# Statements in the order of the text

A node begins no later than any token it covers.  When the tokens of a tree
follow each other, every statement begins with its keyword, so sorting statements
or blocks by place leaves them in the order in which they were read.
-/

namespace WorkflowLang

namespace Span

theorem start_merge_le (first second : Span) :
    (first.merge second).start ≤ first.start ∧
      (first.merge second).start ≤ second.start := by
  simp only [merge, Position.earlier]
  split
  · rename_i firstLe
    exact ⟨Position.le_refl _, firstLe⟩
  · rename_i notLe
    exact ⟨(Position.le_total _ _).resolve_left notLe, Position.le_refl _⟩

theorem le_start_merge {position : Position} {first second : Span}
    (firstBound : position ≤ first.start)
    (secondBound : position ≤ second.start) :
    position ≤ (first.merge second).start := by
  simp only [merge, Position.earlier]
  split
  · exact firstBound
  · exact secondBound

theorem start_foldl_merge_le (spans : List Span) (first : Span) :
    (spans.foldl merge first).start ≤ first.start ∧
      ∀ span ∈ spans, (spans.foldl merge first).start ≤ span.start := by
  induction spans generalizing first with
  | nil => exact ⟨Position.le_refl _, by simp⟩
  | cons second others inductionHypothesis =>
      obtain ⟨fromMerged, fromOthers⟩ :=
        inductionHypothesis (first.merge second)
      obtain ⟨fromFirst, fromSecond⟩ := start_merge_le first second
      refine ⟨Position.le_trans fromMerged fromFirst, fun span member => ?_⟩
      rcases List.mem_cons.mp member with rfl | isOther
      · exact Position.le_trans fromMerged fromSecond
      · exact fromOthers span isOther

/-- A cover begins no later than what it covers. -/
theorem start_cover_le {spans : List Span} {span : Span}
    (member : span ∈ spans) : (cover spans).start ≤ span.start := by
  cases spans with
  | nil => simp at member
  | cons first others =>
      obtain ⟨fromFirst, fromOthers⟩ := start_foldl_merge_le others first
      rcases List.mem_cons.mp member with rfl | isOther
      · exact fromFirst
      · exact fromOthers span isOther

/-- A cover begins no earlier than all it covers. -/
theorem le_start_cover {position : Position} {spans : List Span}
    (nonempty : spans ≠ []) (bound : ∀ span ∈ spans, position ≤ span.start) :
    position ≤ (cover spans).start := by
  cases spans with
  | nil => exact absurd rfl nonempty
  | cons first others =>
      have firstBound := bound first List.mem_cons_self
      have othersBound : ∀ span ∈ others, position ≤ span.start :=
        fun span member => bound span (List.mem_cons_of_mem _ member)
      clear bound nonempty
      rw [cover]
      induction others generalizing first with
      | nil => exact firstBound
      | cons second others inductionHypothesis =>
          have secondBound := othersBound second List.mem_cons_self
          refine inductionHypothesis _ ?_ fun span member => ?_
          · exact le_start_merge firstBound secondBound
          · exact othersBound span (List.mem_cons_of_mem _ member)

end Span

/-- No token of a list begins before a position. -/
def Token.AllFrom (position : Position) (tokens : List Token) : Prop :=
  ∀ token ∈ tokens, position ≤ token.span.start

theorem Token.AllFrom.le_start_coverSpan {position : Position}
    {tokens : List Token} (nonempty : tokens ≠ [])
    (bound : Token.AllFrom position tokens) :
    position ≤ (Token.coverSpan tokens).start := by
  refine Span.le_start_cover (by simpa using nonempty) fun span member => ?_
  obtain ⟨token, present, rfl⟩ := List.mem_map.mp member
  exact bound token present

theorem PropertyValue.le_start_of_mem_spans {position : Position}
    {value : PropertyValue} (bound : Token.AllFrom position value.tokens)
    {span : Span} (member : span ∈ value.spans) : position ≤ span.start := by
  cases value with
  | string value =>
      obtain rfl : span = value.span := by simpa [spans] using member
      exact bound value (by simp [tokens])
  | array openBracket items closeBracket =>
      simp only [spans, List.cons_append, List.nil_append, List.mem_cons,
        List.mem_map] at member
      rcases member with rfl | rfl | ⟨item, present, rfl⟩
      · exact bound openBracket (by simp [tokens])
      · exact bound closeBracket (by simp [tokens])
      · refine Token.AllFrom.le_start_coverSpan (by simp [ArrayItem.tokens])
          fun token inside => bound token ?_
        simp only [tokens, List.mem_append, List.mem_cons, List.mem_flatMap]
        exact Or.inl (Or.inr ⟨item, present, inside⟩)
  | object openBracket members closeBracket =>
      simp only [spans, List.cons_append, List.nil_append, List.mem_cons,
        List.mem_map] at member
      rcases member with rfl | rfl | ⟨entry, present, rfl⟩
      · exact bound openBracket (by simp [tokens])
      · exact bound closeBracket (by simp [tokens])
      · refine Token.AllFrom.le_start_coverSpan
          (by simp [ObjectMember.tokens]) fun token inside => bound token ?_
        simp only [tokens, List.mem_append, List.mem_cons, List.mem_flatMap]
        exact Or.inl (Or.inr ⟨entry, present, inside⟩)

theorem Property.le_start_span {position : Position} {property : Property}
    (bound : Token.AllFrom position property.tokens) :
    position ≤ property.span.start := by
  refine Span.le_start_cover (by simp) fun span member => ?_
  simp only [List.cons_append, List.nil_append, List.mem_cons] at member
  rcases member with rfl | rfl | inValue
  · exact bound property.key (by simp [tokens])
  · exact bound property.equal (by simp [tokens])
  · refine PropertyValue.le_start_of_mem_spans (fun token inside => ?_) inValue
    exact bound token (by simp [tokens, inside])

theorem Block.start_span {block : Block}
    (bound : Token.AllFrom block.keyword.span.start block.tokens) :
    block.span.start = block.keyword.span.start := by
  refine Position.le_antisymm (Span.start_cover_le (by simp)) ?_
  refine Span.le_start_cover (by simp) fun span member => ?_
  simp only [List.cons_append, List.nil_append, List.mem_cons,
    List.mem_map] at member
  rcases member with rfl | rfl | rfl | rfl | ⟨property, present, rfl⟩
  · exact Position.le_refl _
  · exact bound block.name (by simp [tokens])
  · exact bound block.openBracket (by simp [tokens])
  · exact bound block.closeBracket (by simp [tokens])
  · refine Property.le_start_span fun token inside => bound token ?_
    simp only [tokens, List.mem_append, List.mem_flatMap]
    exact Or.inl (Or.inr ⟨property, present, inside⟩)

namespace Statement

/-- A statement with no token before its keyword begins with the keyword. -/
theorem start_span {statement : Statement}
    (bound : Token.AllFrom statement.keyword.span.start statement.tokens) :
    statement.span.start = statement.keyword.span.start := by
  cases statement with
  | version version =>
      refine Position.le_antisymm (Span.start_cover_le ?_) ?_
      · simp [VersionStatement.tokens, keyword]
      · exact Token.AllFrom.le_start_coverSpan
          (by simp [VersionStatement.tokens]) bound
  | block block => exact Block.start_span bound

theorem exists_tokens_eq (statement : Statement) :
    ∃ others, statement.tokens = statement.keyword :: others := by
  cases statement with
  | version version => exact ⟨_, rfl⟩
  | block block => exact ⟨_, rfl⟩

theorem keyword_mem_tokens (statement : Statement) :
    statement.keyword ∈ statement.tokens := by
  obtain ⟨others, tokens⟩ := statement.exists_tokens_eq
  rw [tokens]
  exact List.mem_cons_self

end Statement

/-- The workflow or action a block declares. -/
def DocumentBlock.ofBlock (block : Block) : DocumentBlock :=
  match block.kind with
  | .workflow => .workflow block.toWorkflow
  | .action => .action block.toAction

@[simp] theorem DocumentBlock.block_ofBlock (body : Block) :
    (DocumentBlock.ofBlock body).block = body := by
  unfold DocumentBlock.ofBlock
  split <;> rfl

@[simp] theorem DocumentBlock.name_ofBlock (body : Block) :
    (DocumentBlock.ofBlock body).name = Text.unquote body.name.text := by
  unfold DocumentBlock.ofBlock
  split <;> rfl

/-- The blocks of a document are its workflows and its actions. -/
theorem Document.perm_blocks (document : Document) :
    document.blocks.Perm (document.workflows.map DocumentBlock.workflow ++
      document.actions.map DocumentBlock.action) :=
  List.mergeSort_perm _ _

namespace SyntaxTree

/-- The tokens of a tree follow each other. -/
def IsOrdered (tree : SyntaxTree) : Prop :=
  tree.tokens.Pairwise fun first second =>
    ¬second.span.start ≤ first.span.start

variable {tree : SyntaxTree}

theorem IsOrdered.start_span (ordered : tree.IsOrdered)
    {statement : Statement} (member : statement ∈ tree.statements) :
    statement.span.start = statement.keyword.span.start := by
  have inside := (List.pairwise_flatMap.mp ordered).1 statement member
  obtain ⟨others, tokens⟩ := statement.exists_tokens_eq
  rw [tokens] at inside
  refine Statement.start_span fun token present => ?_
  rw [tokens] at present
  rcases List.mem_cons.mp present with rfl | isLater
  · exact Position.le_refl _
  · exact (Position.le_total _ _).resolve_right
      ((List.pairwise_cons.mp inside).1 token isLater)

theorem IsOrdered.pairwise_keyword (ordered : tree.IsOrdered) :
    tree.statements.Pairwise fun first second =>
      ¬second.keyword.span.start ≤ first.keyword.span.start :=
  (List.pairwise_flatMap.mp ordered).2.imp fun follows =>
    follows _ (Statement.keyword_mem_tokens _) _
      (Statement.keyword_mem_tokens _)

/-- Grouping statements by kind loses none of them. -/
theorem perm_statements (tree : SyntaxTree) :
    (tree.versions.map Statement.version ++
      tree.blocks.map Statement.block).Perm tree.statements := by
  obtain ⟨statements⟩ := tree
  simp only [versions, blocks]
  induction statements with
  | nil => exact List.Perm.nil
  | cons statement others inductionHypothesis =>
      cases statement with
      | version version => exact inductionHypothesis.cons _
      | block block =>
          exact List.perm_middle.trans (inductionHypothesis.cons _)

/-- Statements that begin one after the other are sorted. -/
theorem sortedStatements_eq (increasing : tree.statements.Pairwise
      fun first second => ¬second.span.start ≤ first.span.start) :
    tree.sortedStatements = tree.statements := by
  refine mergeSort_eq_of_perm (fun statement => statement.span.start)
    tree.perm_statements ?_
  exact increasing

theorem IsOrdered.sortedStatements_eq (ordered : tree.IsOrdered) :
    tree.sortedStatements = tree.statements := by
  refine SyntaxTree.sortedStatements_eq
    (ordered.pairwise_keyword.imp_of_mem ?_)
  intro first second isFirst isSecond follows
  rw [ordered.start_span isFirst, ordered.start_span isSecond]
  exact follows

theorem perm_blocks (tree : SyntaxTree) :
    ((Document.ofTree tree).workflows.map DocumentBlock.workflow ++
      (Document.ofTree tree).actions.map DocumentBlock.action).Perm
        (tree.blocks.map DocumentBlock.ofBlock) := by
  simp only [Document.ofTree]
  induction tree.blocks with
  | nil => exact List.Perm.nil
  | cons block others inductionHypothesis =>
      cases kind : block.kind with
      | workflow =>
          simp only [List.filter_cons, kind, List.map_cons]
          simpa [DocumentBlock.ofBlock, kind] using inductionHypothesis
      | action =>
          simp only [List.filter_cons, kind, List.map_cons]
          simpa [DocumentBlock.ofBlock, kind] using
            List.perm_middle.trans (inductionHypothesis.cons _)

/-- What holds between the keywords of statements holds between those of
blocks. -/
theorem pairwise_blocks (Relates : Token → Token → Prop)
    (related : tree.statements.Pairwise fun first second =>
      Relates first.keyword second.keyword) :
    tree.blocks.Pairwise fun first second =>
      Relates first.keyword second.keyword := by
  rw [blocks, List.pairwise_filterMap]
  refine related.imp ?_
  intro first second relates block isBlock other isOther
  cases first with
  | version version => simp [Statement.block?] at isBlock
  | block body =>
      cases second with
      | version version => simp [Statement.block?] at isOther
      | block otherBody =>
          obtain rfl : body = block := by
            simpa [Statement.block?] using isBlock
          obtain rfl : otherBody = other := by
            simpa [Statement.block?] using isOther
          exact relates

/-- Blocks whose keywords follow each other keep their order in the document. -/
theorem blocks_ofTree (follow : tree.blocks.Pairwise fun first second =>
      ¬second.keyword.span.start ≤ first.keyword.span.start) :
    (Document.ofTree tree).blocks =
      tree.blocks.map DocumentBlock.ofBlock := by
  refine mergeSort_eq_of_perm
    (fun declared => declared.block.keyword.span.start) tree.perm_blocks ?_
  simpa [List.pairwise_map] using follow

/-- The blocks of a document have the order of its tree. -/
theorem IsOrdered.blocks_ofTree (ordered : tree.IsOrdered) :
    (Document.ofTree tree).blocks = tree.blocks.map DocumentBlock.ofBlock :=
  SyntaxTree.blocks_ofTree <| pairwise_blocks
    (fun first second => ¬second.span.start ≤ first.span.start)
    ordered.pairwise_keyword

end SyntaxTree

namespace Parse

/-- The tokens of a tree read without a report follow each other as they do in
the text. -/
theorem isOrdered_of_diagnostics_eq_nil {position : Position}
    {text : List Char}
    (quiet : (ofTokens (Scan.scanFrom position text).tokens).diagnostics =
      []) :
    (ofTokens (Scan.scanFrom position text).tokens).tree.IsOrdered := by
  rw [SyntaxTree.IsOrdered, (of_diagnostics_eq_nil quiet).1, grammatical]
  exact (Scan.pairwise_start position text).filter _

/-- The blocks of a document have the order of the tree, with or without
reports. -/
theorem blocks_ofTokens (position : Position) (text : List Char) :
    let tree := (ofTokens (Scan.scanFrom position text).tokens).tree
    (Document.ofTree tree).blocks = tree.blocks.map DocumentBlock.ofBlock := by
  have follow := (Scan.pairwise_start position text).filter
    SyntaxTree.beginsBlock
  rw [← keyword_blocks, List.pairwise_map] at follow
  exact SyntaxTree.blocks_ofTree follow

end Parse

end WorkflowLang
