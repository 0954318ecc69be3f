import WorkflowLang.Tree

/-!
# Changing the tokens of a tree

A function on tokens acts on every token a tree is made of.  Two such functions
matter: one forgets where tokens stand, the other forgets it only of the
stand-ins for absent tokens.  Trees that agree after the first have the same
structure, kinds and texts.
-/

namespace WorkflowLang

namespace Token

/-- A token without its place. -/
def unplaced (token : Token) : Token :=
  { token with span := Span.origin }

/-- A token, without its place if it stands for an absent one. -/
def unplacedIfMissing (token : Token) : Token :=
  if token.isMissing then token.unplaced else token

@[simp] theorem kind_unplaced (token : Token) :
    token.unplaced.kind = token.kind := rfl

@[simp] theorem text_unplaced (token : Token) :
    token.unplaced.text = token.text := rfl

@[simp] theorem kind_unplacedIfMissing (token : Token) :
    token.unplacedIfMissing.kind = token.kind := by
  unfold unplacedIfMissing
  split <;> rfl

/-- Without their places, tokens are kinds and texts. -/
theorem unplaced_eq_unplaced_iff (first second : Token) :
    first.unplaced = second.unplaced ↔
      first.kind = second.kind ∧ first.text = second.text := by
  cases first
  cases second
  simp [unplaced]

end Token

section

variable {Piece : Type} {mapPiece : Piece → Piece}

theorem mapOption_eq_self {piece? : Option Piece}
    (fixed : ∀ piece ∈ piece?, mapPiece piece = piece) :
    piece?.map mapPiece = piece? := by
  cases piece? with
  | none => rfl
  | some piece => exact congrArg some (fixed piece rfl)

theorem mapPieces_eq_self {pieces : List Piece}
    (fixed : ∀ piece ∈ pieces, mapPiece piece = piece) :
    pieces.map mapPiece = pieces := by
  have same : pieces.map mapPiece = pieces.map id := List.map_congr_left fixed
  rw [same, List.map_id]

end

namespace VersionStatement

def mapTokens (view : Token → Token) (version : VersionStatement) :
    VersionStatement :=
  ⟨view version.keyword, view version.equal, view version.integer⟩

@[simp] theorem tokens_mapTokens (view : Token → Token)
    (version : VersionStatement) :
    (version.mapTokens view).tokens = version.tokens.map view := rfl

@[simp] theorem mapTokens_id : mapTokens id = id := rfl

theorem mapTokens_eq_self {view : Token → Token} {version : VersionStatement}
    (fixed : ∀ token ∈ version.tokens, view token = token) :
    version.mapTokens view = version := by
  have keyword := fixed version.keyword (by simp [tokens])
  have equal := fixed version.equal (by simp [tokens])
  have integer := fixed version.integer (by simp [tokens])
  rw [mapTokens, keyword, equal, integer]

end VersionStatement

namespace ArrayItem

def mapTokens (view : Token → Token) (item : ArrayItem) : ArrayItem :=
  ⟨view item.value, item.comma.map view⟩

@[simp] theorem tokens_mapTokens (view : Token → Token) (item : ArrayItem) :
    (item.mapTokens view).tokens = item.tokens.map view := by
  cases item with
  | mk value comma => cases comma <;> rfl

@[simp] theorem mapTokens_id : mapTokens id = id := by
  funext item
  simp [mapTokens]

theorem mapTokens_eq_self {view : Token → Token} {item : ArrayItem}
    (fixed : ∀ token ∈ item.tokens, view token = token) :
    item.mapTokens view = item := by
  have value := fixed item.value (by simp [tokens])
  have comma : item.comma.map view = item.comma := by
    apply mapOption_eq_self
    intro token member
    exact fixed token (by simp [tokens, Option.mem_def.mp member])
  rw [mapTokens, value, comma]

end ArrayItem

namespace ObjectMember

def mapTokens (view : Token → Token) (member : ObjectMember) :
    ObjectMember :=
  ⟨view member.name, view member.equal, view member.value,
    member.comma.map view⟩

@[simp] theorem tokens_mapTokens (view : Token → Token)
    (member : ObjectMember) :
    (member.mapTokens view).tokens = member.tokens.map view := by
  cases member with
  | mk name equal value comma => cases comma <;> rfl

@[simp] theorem mapTokens_id : mapTokens id = id := by
  funext member
  simp [mapTokens]

theorem mapTokens_eq_self {view : Token → Token} {member : ObjectMember}
    (fixed : ∀ token ∈ member.tokens, view token = token) :
    member.mapTokens view = member := by
  have name := fixed member.name (by simp [tokens])
  have equal := fixed member.equal (by simp [tokens])
  have value := fixed member.value (by simp [tokens])
  have comma : member.comma.map view = member.comma := by
    apply mapOption_eq_self
    intro token present
    exact fixed token (by simp [tokens, Option.mem_def.mp present])
  rw [mapTokens, name, equal, value, comma]

end ObjectMember

namespace PropertyValue

def mapTokens (view : Token → Token) : PropertyValue → PropertyValue
  | .string value => .string (view value)
  | .array openBracket items closeBracket =>
      .array (view openBracket) (items.map (ArrayItem.mapTokens view))
        (view closeBracket)
  | .object openBracket members closeBracket =>
      .object (view openBracket) (members.map (ObjectMember.mapTokens view))
        (view closeBracket)

@[simp] theorem tokens_mapTokens (view : Token → Token)
    (value : PropertyValue) :
    (value.mapTokens view).tokens = value.tokens.map view := by
  cases value <;>
    simp [mapTokens, tokens, List.flatMap_map, List.map_flatMap]

@[simp] theorem isList_mapTokens (view : Token → Token)
    (value : PropertyValue) :
    (value.mapTokens view).isList = value.isList := by
  cases value <;> rfl

@[simp] theorem mapTokens_id : mapTokens id = id := by
  funext value
  cases value <;> simp [mapTokens]

theorem mapTokens_eq_self {view : Token → Token} {value : PropertyValue}
    (fixed : ∀ token ∈ value.tokens, view token = token) :
    value.mapTokens view = value := by
  cases value with
  | string value => exact congrArg string (fixed value (by simp [tokens]))
  | array openBracket items closeBracket =>
      have opens := fixed openBracket (by simp [tokens])
      have closes := fixed closeBracket (by simp [tokens])
      have inner : items.map (ArrayItem.mapTokens view) = items := by
        apply mapPieces_eq_self
        intro item member
        apply ArrayItem.mapTokens_eq_self
        intro token present
        apply fixed
        simp only [tokens, List.mem_append, List.mem_cons, List.mem_flatMap]
        exact Or.inl (Or.inr ⟨item, member, present⟩)
      rw [mapTokens, opens, closes, inner]
  | object openBracket members closeBracket =>
      have opens := fixed openBracket (by simp [tokens])
      have closes := fixed closeBracket (by simp [tokens])
      have inner : members.map (ObjectMember.mapTokens view) = members := by
        apply mapPieces_eq_self
        intro entry member
        apply ObjectMember.mapTokens_eq_self
        intro token present
        apply fixed
        simp only [tokens, List.mem_append, List.mem_cons, List.mem_flatMap]
        exact Or.inl (Or.inr ⟨entry, member, present⟩)
      rw [mapTokens, opens, closes, inner]

end PropertyValue

namespace Property

def mapTokens (view : Token → Token) (property : Property) : Property :=
  ⟨view property.key, view property.equal, property.value.mapTokens view⟩

@[simp] theorem tokens_mapTokens (view : Token → Token)
    (property : Property) :
    (property.mapTokens view).tokens = property.tokens.map view := by
  simp [mapTokens, tokens]

@[simp] theorem mapTokens_id : mapTokens id = id := by
  funext property
  simp [mapTokens]

theorem mapTokens_eq_self {view : Token → Token} {property : Property}
    (fixed : ∀ token ∈ property.tokens, view token = token) :
    property.mapTokens view = property := by
  have key := fixed property.key (by simp [tokens])
  have equal := fixed property.equal (by simp [tokens])
  have value : property.value.mapTokens view = property.value := by
    apply PropertyValue.mapTokens_eq_self
    intro token present
    exact fixed token (by simp [tokens, present])
  rw [mapTokens, key, equal, value]

end Property

namespace Block

def mapTokens (view : Token → Token) (block : Block) : Block :=
  ⟨block.kind, view block.keyword, view block.name, view block.openBracket,
    block.properties.map (Property.mapTokens view), view block.closeBracket⟩

@[simp] theorem tokens_mapTokens (view : Token → Token) (block : Block) :
    (block.mapTokens view).tokens = block.tokens.map view := by
  simp [mapTokens, tokens, List.flatMap_map, List.map_flatMap]

@[simp] theorem mapTokens_id : mapTokens id = id := by
  funext block
  simp [mapTokens]

theorem mapTokens_eq_self {view : Token → Token} {block : Block}
    (fixed : ∀ token ∈ block.tokens, view token = token) :
    block.mapTokens view = block := by
  have keyword := fixed block.keyword (by simp [tokens])
  have name := fixed block.name (by simp [tokens])
  have opens := fixed block.openBracket (by simp [tokens])
  have closes := fixed block.closeBracket (by simp [tokens])
  have inner : block.properties.map (Property.mapTokens view) =
      block.properties := by
    apply mapPieces_eq_self
    intro property member
    apply Property.mapTokens_eq_self
    intro token present
    apply fixed
    simp only [tokens, List.mem_append, List.mem_flatMap]
    exact Or.inl (Or.inr ⟨property, member, present⟩)
  rw [mapTokens, keyword, name, opens, closes, inner]

end Block

namespace Statement

def mapTokens (view : Token → Token) : Statement → Statement
  | .version statement => .version (statement.mapTokens view)
  | .block body => .block (body.mapTokens view)

@[simp] theorem tokens_mapTokens (view : Token → Token)
    (statement : Statement) :
    (statement.mapTokens view).tokens = statement.tokens.map view := by
  cases statement <;> simp [mapTokens, tokens]

@[simp] theorem version?_mapTokens (view : Token → Token)
    (statement : Statement) :
    (statement.mapTokens view).version? =
      statement.version?.map (VersionStatement.mapTokens view) := by
  cases statement <;> rfl

@[simp] theorem block?_mapTokens (view : Token → Token)
    (statement : Statement) :
    (statement.mapTokens view).block? =
      statement.block?.map (Block.mapTokens view) := by
  cases statement <;> rfl

@[simp] theorem mapTokens_id : mapTokens id = id := by
  funext statement
  cases statement <;> simp [mapTokens]

theorem mapTokens_eq_self {view : Token → Token} {statement : Statement}
    (fixed : ∀ token ∈ statement.tokens, view token = token) :
    statement.mapTokens view = statement := by
  cases statement with
  | version statement =>
      exact congrArg version (VersionStatement.mapTokens_eq_self fixed)
  | block body => exact congrArg block (Block.mapTokens_eq_self fixed)

end Statement

namespace SyntaxTree

variable {tree : SyntaxTree}

theorem mem_of_mem_versions {version : VersionStatement}
    (member : version ∈ tree.versions) :
    Statement.version version ∈ tree.statements := by
  obtain ⟨statement, present, isVersion⟩ := List.mem_filterMap.mp member
  cases statement with
  | version other =>
      obtain rfl : other = version := by
        simpa [Statement.version?] using isVersion
      exact present
  | block block => simp [Statement.version?] at isVersion

theorem mem_of_mem_blocks {block : Block} (member : block ∈ tree.blocks) :
    Statement.block block ∈ tree.statements := by
  obtain ⟨statement, present, isBlock⟩ := List.mem_filterMap.mp member
  cases statement with
  | version version => simp [Statement.block?] at isBlock
  | block other =>
      obtain rfl : other = block := by
        simpa [Statement.block?] using isBlock
      exact present

def mapTokens (view : Token → Token) (tree : SyntaxTree) : SyntaxTree :=
  ⟨tree.statements.map (Statement.mapTokens view)⟩

@[simp] theorem tokens_mapTokens (view : Token → Token)
    (tree : SyntaxTree) :
    (tree.mapTokens view).tokens = tree.tokens.map view := by
  simp [mapTokens, tokens, List.flatMap_map, List.map_flatMap]

@[simp] theorem versions_mapTokens (view : Token → Token)
    (tree : SyntaxTree) :
    (tree.mapTokens view).versions =
      tree.versions.map (VersionStatement.mapTokens view) := by
  rw [versions, mapTokens, List.filterMap_map, versions, List.map_filterMap]
  exact congrArg (List.filterMap · tree.statements)
    (funext fun statement => statement.version?_mapTokens view)

@[simp] theorem blocks_mapTokens (view : Token → Token)
    (tree : SyntaxTree) :
    (tree.mapTokens view).blocks =
      tree.blocks.map (Block.mapTokens view) := by
  rw [blocks, mapTokens, List.filterMap_map, blocks, List.map_filterMap]
  exact congrArg (List.filterMap · tree.statements)
    (funext fun statement => statement.block?_mapTokens view)

/-- Nothing changes in a tree when none of its tokens does. -/
theorem mapTokens_eq_self {view : Token → Token} {tree : SyntaxTree}
    (fixed : ∀ token ∈ tree.tokens, view token = token) :
    tree.mapTokens view = tree := by
  have inner : tree.statements.map (Statement.mapTokens view) =
      tree.statements := by
    apply mapPieces_eq_self
    intro statement member
    apply Statement.mapTokens_eq_self
    intro token present
    exact fixed token (List.mem_flatMap.mpr ⟨statement, member, present⟩)
  rw [mapTokens, inner]

end SyntaxTree

end WorkflowLang
