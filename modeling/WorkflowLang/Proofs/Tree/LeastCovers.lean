import WorkflowLang.Proofs.Tree.Extent
import WorkflowLang.Proofs.Tree.Standing

/-!
# Spans as least covers

Spans are ordered by covering, and the cover of some spans is the least one that
covers them all.  So it depends neither on their order nor on how they are grouped:
the span of a node, which is merged from the spans of its own tokens and of its
children, is the least one that covers all tokens below the node, stand-ins included
(`Parse.isSpanned_of_hasNode`).
-/

namespace WorkflowLang

namespace Span

/-- A span covers all of some spans, and every span that does so covers it. -/
structure IsLeastCover (spans : List Span) (span : Span) : Prop where
  covers : ∀ part ∈ spans, span.Covers part
  least : ∀ outer : Span,
    (∀ part ∈ spans, outer.Covers part) → outer.Covers span

theorem Covers.antisymm {first second : Span} (covers : first.Covers second)
    (covered : second.Covers first) : first = second := by
  have start := Position.le_antisymm covers.1 covered.1
  have finish := Position.le_antisymm covered.2 covers.2
  cases first
  cases second
  simp only [mk.injEq]
  exact ⟨start, finish⟩

theorem isLeastCover_cover {spans : List Span} (nonempty : spans ≠ []) :
    IsLeastCover spans (cover spans) where
  covers _ := covers_of_mem
  least outer coversAll := by
    obtain ⟨last, isPart, finish⟩ := exists_finish_cover nonempty
    constructor
    · exact le_start_cover nonempty fun part member =>
        (coversAll part member).1
    · rw [finish]
      exact (coversAll last isPart).2

theorem IsLeastCover.eq {spans : List Span} {first second : Span}
    (isFirst : IsLeastCover spans first)
    (isSecond : IsLeastCover spans second) : first = second :=
  (isSecond.least first isFirst.covers).antisymm
    (isFirst.least second isSecond.covers)

/-- Only membership matters for what the least cover is. -/
theorem IsLeastCover.congr {spans others : List Span} {span : Span}
    (same : ∀ part, part ∈ spans ↔ part ∈ others)
    (least : IsLeastCover spans span) : IsLeastCover others span where
  covers part member := least.covers part ((same part).mpr member)
  least outer coversAll :=
    least.least outer fun part member => coversAll part ((same part).mp member)

end Span

/-- The nodes of a tree that have a span. -/
inductive TreeNode where
  | version (statement : VersionStatement)
  | block (body : Block)
  | property (definition : Property)
  | item (entry : ArrayItem)
  | member (entry : ObjectMember)

namespace TreeNode

def span : TreeNode → Span
  | .version statement => statement.span
  | .block body => body.span
  | .property definition => definition.span
  | .item entry => entry.span
  | .member entry => entry.span

/-- All tokens below a node, in reading order. -/
def tokens : TreeNode → List Token
  | .version statement => statement.tokens
  | .block body => body.tokens
  | .property definition => definition.tokens
  | .item entry => entry.tokens
  | .member entry => entry.tokens

/-- The tokens of a node that belong to none of its children. -/
def ownTokens : TreeNode → List Token
  | .version statement => statement.tokens
  | .block body => [body.keyword, body.name, body.openBracket, body.closeBracket]
  | .property ⟨key, equal, .string value⟩ => [key, equal, value]
  | .property ⟨key, equal, .array openBracket _ closeBracket⟩ =>
      [key, equal, openBracket, closeBracket]
  | .property ⟨key, equal, .object openBracket _ closeBracket⟩ =>
      [key, equal, openBracket, closeBracket]
  | .item entry => entry.tokens
  | .member entry => entry.tokens

def children : TreeNode → List TreeNode
  | .version _ => []
  | .block body => body.properties.map .property
  | .property ⟨_, _, .string _⟩ => []
  | .property ⟨_, _, .array _ items _⟩ => items.map .item
  | .property ⟨_, _, .object _ members _⟩ => members.map .member
  | .item _ => []
  | .member _ => []

/-- The spans of what a node owns. -/
def parts (node : TreeNode) : List Span :=
  node.ownTokens.map Token.span ++ node.children.map span

theorem span_eq_cover (node : TreeNode) :
    node.span = Span.cover node.parts := by
  cases node with
  | version statement => rfl
  | block body =>
      rw [parts, children, List.map_map]
      rfl
  | property definition =>
      obtain ⟨key, equal, value⟩ := definition
      cases value with
      | string value => rfl
      | array openBracket items closeBracket =>
          rw [parts, children, List.map_map]
          rfl
      | object openBracket members closeBracket =>
          rw [parts, children, List.map_map]
          rfl
  | item entry =>
      rw [parts, children, List.map_nil, List.append_nil]
      rfl
  | member entry =>
      rw [parts, children, List.map_nil, List.append_nil]
      rfl

theorem parts_ne_nil (node : TreeNode) : node.parts ≠ [] := by
  have owns : node.ownTokens ≠ [] := by
    unfold ownTokens
    split <;> exact List.cons_ne_nil _ _
  simp [parts, owns]

theorem isLeastCover_parts (node : TreeNode) :
    Span.IsLeastCover node.parts node.span := by
  rw [span_eq_cover]
  exact Span.isLeastCover_cover node.parts_ne_nil

/-- The tokens below a node are its own ones and those of its children. -/
theorem tokens_perm (node : TreeNode) :
    node.tokens.Perm (node.ownTokens ++ node.children.flatMap tokens) := by
  cases node with
  | version statement => exact .of_eq (List.append_nil _).symm
  | block body =>
      rw [children, List.flatMap_map]
      exact List.perm_append_comm.append_left
        [body.keyword, body.name, body.openBracket]
  | property definition =>
      obtain ⟨key, equal, value⟩ := definition
      cases value with
      | string value => exact .of_eq (List.append_nil _).symm
      | array openBracket items closeBracket =>
          rw [children, List.flatMap_map]
          exact List.perm_append_comm.append_left [key, equal, openBracket]
      | object openBracket members closeBracket =>
          rw [children, List.flatMap_map]
          exact List.perm_append_comm.append_left [key, equal, openBracket]
  | item entry => exact .of_eq (List.append_nil _).symm
  | member entry => exact .of_eq (List.append_nil _).symm

theorem mem_tokens_iff {node : TreeNode} {token : Token} :
    token ∈ node.tokens ↔
      token ∈ node.ownTokens ∨
        ∃ child ∈ node.children, token ∈ child.tokens := by
  rw [node.tokens_perm.mem_iff, List.mem_append, List.mem_flatMap]

/-- A node covers the tokens below it tightly, if its children do. -/
theorem isLeastCover_of_children {node : TreeNode}
    (ofChildren : ∀ child ∈ node.children,
      Span.IsLeastCover (child.tokens.map Token.span) child.span) :
    Span.IsLeastCover (node.tokens.map Token.span) node.span := by
  have made := node.isLeastCover_parts
  constructor
  · rw [List.forall_mem_map]
    intro token below
    rcases mem_tokens_iff.mp below with own | ⟨child, isChild, inChild⟩
    · exact made.covers _ (List.mem_append_left _ (List.mem_map_of_mem own))
    · have around := made.covers child.span
        (List.mem_append_right _ (List.mem_map_of_mem isChild))
      exact around.trans ((ofChildren child isChild).covers _
        (List.mem_map_of_mem inChild))
  · intro outer coversAll
    rw [List.forall_mem_map] at coversAll
    refine made.least outer (List.forall_mem_append.mpr ⟨?_, ?_⟩)
    · rw [List.forall_mem_map]
      intro token own
      exact coversAll token (mem_tokens_iff.mpr (Or.inl own))
    · rw [List.forall_mem_map]
      intro child isChild
      refine (ofChildren child isChild).least outer ?_
      rw [List.forall_mem_map]
      intro token inChild
      exact coversAll token (mem_tokens_iff.mpr
        (Or.inr ⟨child, isChild, inChild⟩))

theorem isLeastCover_property (definition : Property) :
    Span.IsLeastCover ((property definition).tokens.map Token.span)
      (property definition).span := by
  apply isLeastCover_of_children
  obtain ⟨key, equal, value⟩ := definition
  cases value with
  | string value => simp [children]
  | array openBracket items closeBracket =>
      rw [children, List.forall_mem_map]
      intro entry _
      exact isLeastCover_of_children (by simp [children])
  | object openBracket members closeBracket =>
      rw [children, List.forall_mem_map]
      intro entry _
      exact isLeastCover_of_children (by simp [children])

theorem isLeastCover_tokens (node : TreeNode) :
    Span.IsLeastCover (node.tokens.map Token.span) node.span := by
  cases node with
  | version statement => exact isLeastCover_of_children (by simp [children])
  | block body =>
      apply isLeastCover_of_children
      rw [children, List.forall_mem_map]
      exact fun definition _ => isLeastCover_property definition
  | property definition => exact isLeastCover_property definition
  | item entry => exact isLeastCover_of_children (by simp [children])
  | member entry => exact isLeastCover_of_children (by simp [children])

/-- A node covers what it owns, its span lies in every span that covers the tokens
below it, and it does not depend on the order in which it is merged.  All these
tokens, stand-ins too, have spans of tokens of the input. -/
structure IsSpanned (input : List Token) (node : TreeNode) : Prop where
  coversTokens : ∀ token ∈ node.ownTokens, node.span.Covers token.span
  coversChildren : ∀ child ∈ node.children, node.span.Covers child.span
  least : ∀ outer : Span, (∀ token ∈ node.tokens, outer.Covers token.span) →
    outer.Covers node.span
  merged : ∀ spans : List Span, spans.Perm node.parts →
    Span.cover spans = node.span
  placed : ∀ token ∈ node.tokens, token.span ∈ input.map Token.span

end TreeNode

namespace SyntaxTree

/-- The nodes of a tree are its statements and the children of its nodes. -/
inductive HasNode (tree : SyntaxTree) : TreeNode → Prop where
  | version {statement : VersionStatement}
      (isVersion : statement ∈ tree.versions) :
      HasNode tree (.version statement)
  | block {body : Block} (isBlock : body ∈ tree.blocks) :
      HasNode tree (.block body)
  | child {node child : TreeNode} (isNode : HasNode tree node)
      (isChild : child ∈ node.children) : HasNode tree child

theorem HasNode.tokens_subset {tree : SyntaxTree} {node : TreeNode}
    (isNode : tree.HasNode node) : node.tokens ⊆ tree.tokens := by
  induction isNode with
  | version isVersion =>
      intro token inside
      exact List.mem_flatMap.mpr ⟨_, mem_of_mem_versions isVersion, inside⟩
  | block isBlock =>
      intro token inside
      exact List.mem_flatMap.mpr ⟨_, mem_of_mem_blocks isBlock, inside⟩
  | @child node child _ isChild inductionHypothesis =>
      intro token inChild
      exact inductionHypothesis (TreeNode.mem_tokens_iff.mpr
        (Or.inr ⟨child, isChild, inChild⟩))

end SyntaxTree

namespace Parse

/-- Whatever the tokens are, every node of their tree has the least span that
covers it. -/
theorem isSpanned_of_hasNode {tokens : List Token} {node : TreeNode}
    (isNode : (ofTokens tokens).tree.HasNode node) :
    node.IsSpanned tokens := by
  have made := node.isLeastCover_parts
  obtain ⟨ofTokens, ofChildren⟩ := List.forall_mem_append.mp made.covers
  refine ⟨List.forall_mem_map.mp ofTokens, List.forall_mem_map.mp ofChildren,
    ?_, ?_, ?_⟩
  · intro outer coversAll
    exact node.isLeastCover_tokens.least outer
      (List.forall_mem_map.mpr coversAll)
  · intro spans perm
    have nonempty : spans ≠ [] := by
      rintro rfl
      exact node.parts_ne_nil perm.nil_eq.symm
    exact (Span.isLeastCover_cover nonempty).eq
      (made.congr fun part => perm.symm.mem_iff)
  · intro token below
    exact span_mem_of_mem_tree (isNode.tokens_subset below)

/-- An array that a version statement breaks off, each token one column wide. -/
def unclosedTokens : List Token :=
  [TokenKind.action, .string, .leftBrace, .needs, .equal, .leftBracket,
    .string, .version].zipIdx.map fun (kind, column) =>
      ⟨kind, .single 0 column 1, kind.description⟩

def unclosedBlock : Block :=
  (ofTokens unclosedTokens).tree.blocks.headD default

def unclosedProperty : Property := unclosedBlock.properties.headD default

/-- The stand-in for its bracket stands at the keyword behind it. -/
theorem isSpanned_unclosedProperty :
    (ofTokens unclosedTokens).tree.HasNode (.property unclosedProperty) ∧
      (TreeNode.property unclosedProperty).IsSpanned unclosedTokens ∧
        unclosedProperty.span = .single 0 3 5 := by
  have isBlock : unclosedBlock ∈ (ofTokens unclosedTokens).tree.blocks := by
    decide +kernel
  have isProperty : unclosedProperty ∈ unclosedBlock.properties := by
    decide +kernel
  have isNode : (ofTokens unclosedTokens).tree.HasNode
      (.property unclosedProperty) :=
    .child (.block isBlock) (List.mem_map_of_mem isProperty)
  exact ⟨isNode, isSpanned_of_hasNode isNode, by decide +kernel⟩

end Parse

end WorkflowLang
