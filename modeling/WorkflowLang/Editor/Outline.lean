import WorkflowLang.Compilation

/-!
# Outlines and folding

The outline lists the named blocks with their properties.  Blocks, arrays and
objects that take more than one line can be folded.
-/

namespace WorkflowLang

structure PropertySymbol where
  name : String
  detail : Option String
  span : Span
  selection : Span
  deriving DecidableEq, Inhabited, Repr

structure BlockSymbol where
  name : String
  kind : BlockKind
  span : Span
  selection : Span
  properties : List PropertySymbol
  deriving DecidableEq, Inhabited, Repr

/-- Lines that can be folded into the first of them. -/
structure FoldingRange where
  startLine : Nat
  endLine : Nat
  deriving DecidableEq, Inhabited, Repr

namespace PropertyValue

/-- A short account of a value: the string itself, or how much a list holds. -/
def summary? : PropertyValue → Option String
  | .string value => if value.isMissing then none else some value.text
  | .array _ items _ => some (toString items.length ++ " items")
  | .object _ members _ => some (toString members.length ++ " variables")

end PropertyValue

def Property.outline (property : Property) : PropertySymbol :=
  ⟨property.key.text, property.value.summary?, property.span,
    property.key.span⟩

def Block.outline (block : Block) : BlockSymbol :=
  ⟨Text.unquote block.name.text, block.kind, block.span, block.name.span,
    block.properties.map Property.outline⟩

/-- The outline of a tree; blocks without a name are left out. -/
def SyntaxTree.outline (tree : SyntaxTree) : List BlockSymbol :=
  (tree.blocks.filter fun block => !block.name.isMissing).map Block.outline

/-- The folding range of a span, if it takes more than one line. -/
def FoldingRange.ofSpan? (span : Span) : Option FoldingRange :=
  if span.isMultiline then some ⟨span.start.line, span.finish.line⟩ else none

/-- What can be folded in a block: the block itself, and its lists. -/
def Block.foldingRanges (block : Block) : List FoldingRange :=
  let lists := block.properties.filter fun property => property.value.isList
  (block.span :: lists.map Property.span).filterMap FoldingRange.ofSpan?

def SyntaxTree.foldingRanges (tree : SyntaxTree) : List FoldingRange :=
  tree.blocks.flatMap Block.foldingRanges

end WorkflowLang
