import WorkflowLang.Proofs.Tree.Relocation

/-!
# Trees of one shape

A tree is known by its shape and its tokens: what a function on tokens makes of it
says how many tokens each node has (`SyntaxTree.isKnown_tokens`).  The parser reads
nothing but kinds.  So tokens may be replaced by others of their kinds before they
are parsed or afterwards (`Parse.ofTokens_map_of_kind`).
-/

namespace WorkflowLang

/-- Pieces of a tree that have equal tokens are equal, if they become equal when
each token is changed by a function. -/
structure Token.IsKnown {Piece : Type} (tokensOf : Piece → List Token)
    (mapPiece : Piece → Piece) : Prop where
  length_eq : ∀ piece,
    (tokensOf (mapPiece piece)).length = (tokensOf piece).length
  eq_of_eq : ∀ {first second}, mapPiece first = mapPiece second →
    tokensOf first = tokensOf second → first = second

/-- The lengths of the first parts show where they end. -/
theorem Token.IsKnown.flatMap {Piece : Type} {tokensOf : Piece → List Token}
    {mapPiece : Piece → Piece} (known : IsKnown tokensOf mapPiece) :
    IsKnown (List.flatMap tokensOf) (List.map mapPiece) where
  length_eq pieces := by
    simp [List.length_flatMap, Function.comp_def, known.length_eq]
  eq_of_eq := by
    intro firsts seconds shapes tokens
    induction firsts generalizing seconds with
    | nil => exact (List.map_eq_nil_iff.mp shapes.symm).symm
    | cons first others inductionHypothesis =>
        cases seconds with
        | nil => simp at shapes
        | cons second rest =>
            obtain ⟨shape, otherShapes⟩ := List.cons.inj shapes
            have sameLength :
                (tokensOf first).length = (tokensOf second).length := by
              rw [← known.length_eq first, shape, known.length_eq]
            obtain ⟨here, behind⟩ := List.append_inj tokens sameLength
            rw [known.eq_of_eq shape here,
              inductionHypothesis otherShapes behind]

variable (view : Token → Token)

theorem VersionStatement.isKnown_tokens :
    Token.IsKnown tokens (mapTokens view) where
  length_eq version := by simp
  eq_of_eq := by
    rintro ⟨_, _, _⟩ ⟨_, _, _⟩ - same
    simpa [tokens] using same

theorem ArrayItem.isKnown_tokens : Token.IsKnown tokens (mapTokens view) where
  length_eq item := by simp
  eq_of_eq := by
    rintro ⟨value, comma⟩ ⟨otherValue, otherComma⟩ - same
    obtain ⟨rfl, commas⟩ := List.cons.inj same
    exact congrArg (mk value) (by simpa using congrArg List.head? commas)

theorem ObjectMember.isKnown_tokens :
    Token.IsKnown tokens (mapTokens view) where
  length_eq member := by simp
  eq_of_eq := by
    rintro ⟨name, equal, value, comma⟩ ⟨_, _, _, otherComma⟩ - same
    obtain ⟨fields, commas⟩ := List.append_inj same rfl
    obtain ⟨rfl, rfl, rfl⟩ : _ ∧ _ ∧ _ := by simpa using fields
    exact congrArg (mk name equal value)
      (by simpa using congrArg List.head? commas)

theorem PropertyValue.isKnown_tokens :
    Token.IsKnown tokens (mapTokens view) where
  length_eq value := by simp
  eq_of_eq := by
    intro first second shape same
    cases first with
    | string value =>
        cases second with
        | string other => rw [(List.cons.inj same).1]
        | array _ _ _ => contradiction
        | object _ _ _ => contradiction
    | array opens items closes =>
        cases second with
        | string _ => contradiction
        | array otherOpens otherItems otherCloses =>
            simp only [mapTokens, array.injEq] at shape
            obtain ⟨front, close⟩ := List.append_inj' same rfl
            obtain ⟨rfl, inner⟩ := List.cons.inj front
            obtain ⟨rfl, -⟩ := List.cons.inj close
            rw [(ArrayItem.isKnown_tokens view).flatMap.eq_of_eq shape.2.1
              inner]
        | object _ _ _ => contradiction
    | object opens members closes =>
        cases second with
        | string _ => contradiction
        | array _ _ _ => contradiction
        | object otherOpens otherMembers otherCloses =>
            simp only [mapTokens, object.injEq] at shape
            obtain ⟨front, close⟩ := List.append_inj' same rfl
            obtain ⟨rfl, inner⟩ := List.cons.inj front
            obtain ⟨rfl, -⟩ := List.cons.inj close
            rw [(ObjectMember.isKnown_tokens view).flatMap.eq_of_eq shape.2.1
              inner]

theorem Property.isKnown_tokens : Token.IsKnown tokens (mapTokens view) where
  length_eq property := by simp
  eq_of_eq := by
    rintro ⟨key, equal, value⟩ ⟨_, _, otherValue⟩ shape same
    simp only [mapTokens, mk.injEq] at shape
    obtain ⟨rfl, behindKey⟩ := List.cons.inj same
    obtain ⟨rfl, inValue⟩ := List.cons.inj behindKey
    rw [(PropertyValue.isKnown_tokens view).eq_of_eq shape.2.2 inValue]

theorem Block.isKnown_tokens : Token.IsKnown tokens (mapTokens view) where
  length_eq block := by simp
  eq_of_eq := by
    rintro ⟨kind, keyword, name, opens, properties, closes⟩
      ⟨otherKind, _, _, _, otherProperties, _⟩ shape same
    simp only [mapTokens, mk.injEq] at shape
    obtain ⟨rfl, -, -, -, shapes, -⟩ := shape
    obtain ⟨front, close⟩ := List.append_inj' same rfl
    obtain ⟨head, inner⟩ := List.append_inj front rfl
    obtain ⟨rfl, rfl, rfl⟩ : _ ∧ _ ∧ _ := by simpa using head
    obtain ⟨rfl, -⟩ := List.cons.inj close
    rw [(Property.isKnown_tokens view).flatMap.eq_of_eq shapes inner]

theorem Statement.isKnown_tokens : Token.IsKnown tokens (mapTokens view) where
  length_eq statement := by simp
  eq_of_eq := by
    intro first second shape same
    cases first with
    | version statement =>
        cases second with
        | version other =>
            rw [(VersionStatement.isKnown_tokens view).eq_of_eq
              (version.inj shape) same]
        | block _ => contradiction
    | block body =>
        cases second with
        | version _ => contradiction
        | block other =>
            rw [(Block.isKnown_tokens view).eq_of_eq (block.inj shape) same]

/-- Trees with equal tokens are equal, if they have one shape. -/
theorem SyntaxTree.isKnown_tokens :
    Token.IsKnown tokens (mapTokens view) where
  length_eq tree := by simp
  eq_of_eq := by
    rintro ⟨statements⟩ ⟨others⟩ shape same
    exact congrArg mk
      ((Statement.isKnown_tokens view).flatMap.eq_of_eq (mk.inj shape) same)

section

variable (outer inner : Token → Token)

@[simp] theorem VersionStatement.mapTokens_mapTokens
    (version : VersionStatement) :
    (version.mapTokens inner).mapTokens outer =
      version.mapTokens (outer ∘ inner) := rfl

@[simp] theorem ArrayItem.mapTokens_mapTokens (item : ArrayItem) :
    (item.mapTokens inner).mapTokens outer =
      item.mapTokens (outer ∘ inner) := by
  simp [mapTokens]

@[simp] theorem ObjectMember.mapTokens_mapTokens (member : ObjectMember) :
    (member.mapTokens inner).mapTokens outer =
      member.mapTokens (outer ∘ inner) := by
  simp [mapTokens]

@[simp] theorem PropertyValue.mapTokens_mapTokens (value : PropertyValue) :
    (value.mapTokens inner).mapTokens outer =
      value.mapTokens (outer ∘ inner) := by
  cases value <;> simp [mapTokens]

@[simp] theorem Property.mapTokens_mapTokens (property : Property) :
    (property.mapTokens inner).mapTokens outer =
      property.mapTokens (outer ∘ inner) := by
  simp [mapTokens]

@[simp] theorem Block.mapTokens_mapTokens (block : Block) :
    (block.mapTokens inner).mapTokens outer =
      block.mapTokens (outer ∘ inner) := by
  simp [mapTokens]

@[simp] theorem Statement.mapTokens_mapTokens (statement : Statement) :
    (statement.mapTokens inner).mapTokens outer =
      statement.mapTokens (outer ∘ inner) := by
  cases statement <;> simp [mapTokens]

theorem SyntaxTree.mapTokens_mapTokens (tree : SyntaxTree) :
    (tree.mapTokens inner).mapTokens outer =
      tree.mapTokens (outer ∘ inner) := by
  simp [mapTokens]

end

/-- A token of which only the kind is left. -/
def Token.bare (token : Token) : Token :=
  ⟨token.kind, Span.origin, ""⟩

theorem Token.showsKinds_bare : Token.ShowsKinds Token.bare where
  kind_view _ := rfl
  missing_view _ := rfl

/-- Tokens may be replaced by others of their kinds before they are parsed or
afterwards. -/
theorem Parse.ofTokens_map_of_kind {view : Token → Token}
    (kind_view : ∀ token, (view token).kind = token.kind)
    {tokens : List Token} (quiet : (ofTokens tokens).diagnostics = []) :
    (ofTokens (tokens.map view)).diagnostics = [] ∧
      (ofTokens (tokens.map view)).tree =
        (ofTokens tokens).tree.mapTokens view := by
  have bare : Token.bare ∘ view = Token.bare := by
    funext token
    simp [Token.bare, kind_view]
  have ahead := grammatical_map kind_view tokens
  have same : (grammatical (tokens.map view)).map Token.bare =
      (grammatical tokens).map Token.bare := by
    rw [ahead, List.map_map, bare]
  obtain ⟨shapes, problems⟩ := resembling Token.showsKinds_bare same
  rw [quiet, List.map_nil, List.map_eq_nil_iff] at problems
  refine ⟨problems, (SyntaxTree.isKnown_tokens Token.bare).eq_of_eq ?_ ?_⟩
  · rw [shapes, SyntaxTree.mapTokens_mapTokens, bare]
  · rw [(of_diagnostics_eq_nil problems).1, ahead,
      SyntaxTree.tokens_mapTokens, (of_diagnostics_eq_nil quiet).1]

end WorkflowLang
