import WorkflowLang.Editor.Outline
import WorkflowLang.Text.WhiteSpace
import WorkflowLang.Proofs.Editor.Unquoting
import WorkflowLang.Proofs.Tree.Closing

/-!
# Well-formed outlines

A symbol of an outline should have a name to show, its selection should lie in its
range, and the ranges of its children should too.  The ranges always do, since nodes
cover their tokens and their children, and the keys of properties are never blank.
Blocks without a name are left out, but a name whose quotes have nothing between
them, or white space only, is there: exactly these blocks have blank names in the
outline (`Compilation.outlines`).
-/

namespace WorkflowLang

namespace Text

/-- Nothing but white space, or nothing at all. -/
def IsBlank (characters : List Char) : Prop :=
  ∀ character ∈ characters, isWhiteSpace character = true

instance (characters : List Char) : Decidable (IsBlank characters) :=
  decidable_of_iff (characters.all isWhiteSpace = true) List.all_eq_true

/-- A quote and white space, with or without a closing quote. -/
def QuotesBlank (characters : List Char) : Prop :=
  ∃ blanks, IsBlank blanks ∧
    (characters = '"' :: blanks ∨ characters = '"' :: (blanks ++ ['"']))

theorem IsBlank.getLast?_ne_quote {blanks : List Char}
    (blank : IsBlank blanks) : blanks.getLast? ≠ some '"' := by
  intro ends
  exact absurd (blank '"' (List.mem_of_getLast? ends)) (by decide)

/-- Un-quoting leaves a blank name if the quotes have only white space in them. -/
theorem isBlank_unquote_iff {text : String} {body : List Char}
    (characters : text.toList = '"' :: body) :
    IsBlank (unquote text).toList ↔ QuotesBlank text.toList := by
  rw [toList_unquote characters, characters]
  constructor
  · intro blank
    by_cases ends : body.getLast? = some '"'
    · obtain ⟨front, rfl⟩ := List.getLast?_eq_some_iff.mp ends
      rw [if_pos ends, List.dropLast_concat] at blank
      exact ⟨front, blank, Or.inr rfl⟩
    · rw [if_neg ends] at blank
      exact ⟨body, blank, Or.inl rfl⟩
  · rintro ⟨blanks, blank, opened | closed⟩
    · obtain rfl := List.cons.inj opened |>.2
      rwa [if_neg blank.getLast?_ne_quote]
    · obtain rfl := List.cons.inj closed |>.2
      rwa [if_pos List.getLast?_concat, List.dropLast_concat]

end Text

/-- Ranges contain selections, and the ranges of children. -/
structure BlockSymbol.IsNested (symbol : BlockSymbol) : Prop where
  selection : symbol.span.Covers symbol.selection
  children : ∀ child ∈ symbol.properties, symbol.span.Covers child.span
  childSelections : ∀ child ∈ symbol.properties,
    child.span.Covers child.selection

theorem Block.isNested_outline (block : Block) : block.outline.IsNested where
  selection := Block.covers (by simp [tokens])
  children := by
    refine List.forall_mem_map.mpr fun property isProperty => ?_
    exact Span.covers_of_mem
      (List.mem_append_right _ (List.mem_map_of_mem isProperty))
  childSelections :=
    List.forall_mem_map.mpr fun property _ =>
      Property.covers (by simp [Property.tokens])

namespace TokenKind

theorem isSpelled_of_propertyKeyword {kind : TokenKind}
    (isKey : kind ∈ propertyKeywords) : kind.isSpelled = true := by
  revert kind
  decide

theorem not_isBlank_of_propertyKeyword {kind : TokenKind}
    (isKey : kind ∈ propertyKeywords) :
    ¬Text.IsBlank kind.description.toList := by
  revert kind
  decide

end TokenKind

/-- A well-formed outline, up to the names of some blocks: a symbol has a blank name if
the block that it stands for has its name written as white space between quotes. -/
structure Compilation.Outlines (compilation : Compilation) : Prop where
  isNested : ∀ symbol ∈ compilation.tree.outline, symbol.IsNested
  childNames : ∀ symbol ∈ compilation.tree.outline,
    ∀ child ∈ symbol.properties, ¬Text.IsBlank child.name.toList
  isBlank_iff : ∀ symbol ∈ compilation.tree.outline,
    (Text.IsBlank symbol.name.toList ↔
      ∃ block ∈ compilation.tree.blocks, block.outline = symbol ∧
        Text.QuotesBlank block.name.text.toList)

namespace SyntaxTree

theorem mem_outline_iff {tree : SyntaxTree} {symbol : BlockSymbol} :
    symbol ∈ tree.outline ↔
      ∃ block ∈ tree.blocks, block.name.isMissing = false ∧
        block.outline = symbol := by
  simp [outline, and_assoc]

end SyntaxTree

namespace Compilation

variable {text : String} {block : Block}

section

variable (isBlock : block ∈ (ofText text).tree.blocks)
include isBlock

theorem text_key {property : Property}
    (isProperty : property ∈ block.properties) :
    property.key.text = property.key.kind.description := by
  have isKey := Parse.isKey_key isBlock isProperty
  have inBlock : property.key ∈ block.tokens := by
    simp only [Block.tokens, List.mem_append, List.mem_flatMap]
    exact Or.inl (Or.inr ⟨property, isProperty, by simp [Property.tokens]⟩)
  apply Scan.text_eq_description
  · exact Parse.mem_of_mem_block isBlock inBlock
      (Token.isMissing_of_propertyKeyword isKey)
  · exact TokenKind.isSpelled_of_propertyKeyword isKey

/-- A name that is there begins with a quote. -/
theorem exists_text_name (present : block.name.isMissing = false) :
    ∃ body, block.name.text.toList = '"' :: body := by
  have isString : block.name.kind = .string :=
    (Parse.isTyped _ block isBlock).name.resolve_right
      (by simp [present])
  have isToken := Parse.mem_of_mem_block isBlock
    (by simp [Block.tokens]) present
  exact ⟨_, (Scan.isWellCut_of_mem isToken).text_eq isString⟩

theorem isMissing_name_of_quotesBlank
    (quotesBlank : Text.QuotesBlank block.name.text.toList) :
    block.name.isMissing = false := by
  rw [← Bool.not_eq_true]
  intro absent
  rw [Parse.text_name_of_isMissing isBlock absent] at quotesBlank
  obtain ⟨blanks, -, opened | closed⟩ := quotesBlank <;> contradiction

theorem isBlank_name_outline_iff (present : block.name.isMissing = false) :
    Text.IsBlank block.outline.name.toList ↔
      Text.QuotesBlank block.name.text.toList := by
  obtain ⟨body, characters⟩ := exists_text_name isBlock present
  exact Text.isBlank_unquote_iff characters

end

theorem outlines (text : String) : (ofText text).Outlines where
  isNested := by
    intro symbol isSymbol
    obtain ⟨block, -, -, rfl⟩ := SyntaxTree.mem_outline_iff.mp isSymbol
    exact block.isNested_outline
  childNames := by
    intro symbol isSymbol
    obtain ⟨block, isBlock, -, rfl⟩ := SyntaxTree.mem_outline_iff.mp isSymbol
    refine List.forall_mem_map.mpr fun property isProperty => ?_
    rw [Property.outline, text_key isBlock isProperty]
    exact TokenKind.not_isBlank_of_propertyKeyword
      (Parse.isKey_key isBlock isProperty)
  isBlank_iff := by
    intro symbol isSymbol
    obtain ⟨block, isBlock, present, rfl⟩ :=
      SyntaxTree.mem_outline_iff.mp isSymbol
    constructor
    · intro blank
      exact ⟨block, isBlock, rfl,
        (isBlank_name_outline_iff isBlock present).mp blank⟩
    · rintro ⟨other, isOther, same, quotesBlank⟩
      have otherPresent := isMissing_name_of_quotesBlank isOther quotesBlank
      rw [← same]
      exact (isBlank_name_outline_iff isOther otherPresent).mpr quotesBlank

/-- An empty name has a symbol, and so has a name of which only the first quote is
typed. -/
theorem outline_blankNames :
    (∃ symbol ∈ (ofText "action \"\" \x7b\x7d").tree.outline,
        Text.IsBlank symbol.name.toList) ∧
      ∃ symbol ∈ (ofText "action \"").tree.outline,
        Text.IsBlank symbol.name.toList := by
  decide +kernel

end Compilation

end WorkflowLang
