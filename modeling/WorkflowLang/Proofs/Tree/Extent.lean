import WorkflowLang.Proofs.Tree.Order

/-!
# Where nodes end

A cover ends where one of the spans it covers does.  So every node ends where one of
its tokens does (`Block.exists_finish`), and covers all of them (`Block.covers`).
-/

namespace WorkflowLang

namespace Span

theorem finish_merge_cases (first second : Span) :
    (first.merge second).finish = first.finish ∨
      (first.merge second).finish = second.finish := by
  simp only [merge, Position.later]
  split
  · exact Or.inr rfl
  · exact Or.inl rfl

theorem le_finish_merge (first second : Span) :
    first.finish ≤ (first.merge second).finish ∧
      second.finish ≤ (first.merge second).finish := by
  simp only [merge, Position.later]
  split
  · next firstLe => exact ⟨firstLe, Position.le_refl _⟩
  · next notLe =>
    exact ⟨Position.le_refl _, (Position.le_total _ _).resolve_left notLe⟩

theorem exists_finish_foldl_merge (spans : List Span) (first : Span) :
    ∃ span ∈ first :: spans,
      (spans.foldl merge first).finish = span.finish := by
  induction spans generalizing first with
  | nil => exact ⟨first, by simp, rfl⟩
  | cons second others inductionHypothesis =>
      obtain ⟨span, member, finish⟩ := inductionHypothesis (first.merge second)
      rcases List.mem_cons.mp member with rfl | isOther
      · rcases finish_merge_cases first second with same | same
        · exact ⟨first, by simp, finish.trans same⟩
        · exact ⟨second, by simp, finish.trans same⟩
      · exact ⟨span, by simp [isOther], finish⟩

theorem le_finish_foldl_merge (spans : List Span) (first : Span) :
    ∀ span ∈ first :: spans,
      span.finish ≤ (spans.foldl merge first).finish := by
  induction spans generalizing first with
  | nil => simp [Position.le_refl]
  | cons second others inductionHypothesis =>
      obtain ⟨fromMerged, fromOthers⟩ :=
        List.forall_mem_cons.mp (inductionHypothesis (first.merge second))
      obtain ⟨fromFirst, fromSecond⟩ := le_finish_merge first second
      refine List.forall_mem_cons.mpr ⟨?_, List.forall_mem_cons.mpr ⟨?_, ?_⟩⟩
      · exact Position.le_trans fromFirst fromMerged
      · exact Position.le_trans fromSecond fromMerged
      · exact fromOthers

/-- A cover ends where something ends that it covers. -/
theorem exists_finish_cover {spans : List Span} (nonempty : spans ≠ []) :
    ∃ span ∈ spans, (cover spans).finish = span.finish := by
  cases spans with
  | nil => exact absurd rfl nonempty
  | cons first others => exact exists_finish_foldl_merge others first

/-- A cover ends no earlier than what it covers. -/
theorem le_finish_cover {spans : List Span} {span : Span}
    (member : span ∈ spans) : span.finish ≤ (cover spans).finish := by
  cases spans with
  | nil => simp at member
  | cons first others => exact le_finish_foldl_merge others first span member

theorem covers_of_mem {spans : List Span} {span : Span}
    (member : span ∈ spans) : (cover spans).Covers span :=
  ⟨start_cover_le member, le_finish_cover member⟩

theorem Covers.trans {outer middle inner : Span} (covers : outer.Covers middle)
    (others : middle.Covers inner) : outer.Covers inner :=
  ⟨Position.le_trans covers.1 others.1, Position.le_trans others.2 covers.2⟩

theorem Covers.refl (span : Span) : span.Covers span :=
  ⟨Position.le_refl _, Position.le_refl _⟩

end Span

/-- A span ends where one of some tokens does. -/
def Token.SomeEndsWith (tokens : List Token) (span : Span) : Prop :=
  ∃ token ∈ tokens, span.finish = token.span.finish

theorem Token.SomeEndsWith.mono {tokens others : List Token} {span : Span}
    (ends : SomeEndsWith tokens span) (subset : tokens ⊆ others) :
    SomeEndsWith others span := by
  obtain ⟨token, member, finish⟩ := ends
  exact ⟨token, subset member, finish⟩

theorem Token.someEndsWith_self {tokens : List Token} {token : Token}
    (member : token ∈ tokens) : SomeEndsWith tokens token.span :=
  ⟨token, member, rfl⟩

theorem Token.someEndsWith_coverSpan {tokens : List Token}
    (nonempty : tokens ≠ []) : SomeEndsWith tokens (coverSpan tokens) := by
  have anySpan : tokens.map Token.span ≠ [] := by simpa using nonempty
  obtain ⟨span, member, finish⟩ := Span.exists_finish_cover anySpan
  obtain ⟨token, isToken, rfl⟩ := List.mem_map.mp member
  exact ⟨token, isToken, finish⟩

open Token (SomeEndsWith someEndsWith_self someEndsWith_coverSpan)

theorem PropertyValue.someEndsWith_of_mem_spans {value : PropertyValue}
    {span : Span} (member : span ∈ value.spans) :
    SomeEndsWith value.tokens span := by
  cases value with
  | string value =>
      obtain rfl : span = value.span := by simpa [spans] using member
      exact someEndsWith_self (by simp [tokens])
  | array openBracket items closeBracket =>
      simp only [spans, List.cons_append, List.nil_append, List.mem_cons,
        List.mem_map] at member
      rcases member with rfl | rfl | ⟨item, isItem, rfl⟩
      · exact someEndsWith_self (by simp [tokens])
      · exact someEndsWith_self (by simp [tokens])
      · apply (someEndsWith_coverSpan (by simp [ArrayItem.tokens])).mono
        intro token inside
        simp only [tokens, List.mem_append, List.mem_cons, List.mem_flatMap]
        exact Or.inl (Or.inr ⟨item, isItem, inside⟩)
  | object openBracket members closeBracket =>
      simp only [spans, List.cons_append, List.nil_append, List.mem_cons,
        List.mem_map] at member
      rcases member with rfl | rfl | ⟨entry, isEntry, rfl⟩
      · exact someEndsWith_self (by simp [tokens])
      · exact someEndsWith_self (by simp [tokens])
      · apply (someEndsWith_coverSpan (by simp [ObjectMember.tokens])).mono
        intro token inside
        simp only [tokens, List.mem_append, List.mem_cons, List.mem_flatMap]
        exact Or.inl (Or.inr ⟨entry, isEntry, inside⟩)

theorem Property.someEndsWith_span (property : Property) :
    SomeEndsWith property.tokens property.span := by
  have anySpan : [property.key.span, property.equal.span] ++
      property.value.spans ≠ [] := by simp
  obtain ⟨span, member, finish⟩ := Span.exists_finish_cover anySpan
  have ends : SomeEndsWith property.tokens span := by
    simp only [List.cons_append, List.nil_append, List.mem_cons] at member
    rcases member with rfl | rfl | inValue
    · exact someEndsWith_self (by simp [tokens])
    · exact someEndsWith_self (by simp [tokens])
    · apply (PropertyValue.someEndsWith_of_mem_spans inValue).mono
      exact List.subset_append_right _ _
  obtain ⟨token, isToken, here⟩ := ends
  exact ⟨token, isToken, finish.trans here⟩

theorem Token.coverSpan_covers {tokens : List Token} {token : Token}
    (member : token ∈ tokens) : (coverSpan tokens).Covers token.span :=
  Span.covers_of_mem (List.mem_map_of_mem member)

/-- Each token of a value is covered by one of its parts. -/
theorem PropertyValue.exists_covers {value : PropertyValue} {token : Token}
    (member : token ∈ value.tokens) :
    ∃ span ∈ value.spans, span.Covers token.span := by
  cases value with
  | string value =>
      rw [List.mem_singleton.mp member]
      exact ⟨value.span, by simp [spans], .refl _⟩
  | array openBracket items closeBracket =>
      simp only [tokens, List.mem_append, List.mem_cons, List.mem_flatMap,
        List.not_mem_nil, or_false] at member
      rcases member with (rfl | ⟨item, isItem, inside⟩) | rfl
      · exact ⟨token.span, by simp [spans], .refl _⟩
      · exact ⟨item.span, List.mem_append_right _ (List.mem_map_of_mem isItem),
          Token.coverSpan_covers inside⟩
      · exact ⟨token.span, by simp [spans], .refl _⟩
  | object openBracket members closeBracket =>
      simp only [tokens, List.mem_append, List.mem_cons, List.mem_flatMap,
        List.not_mem_nil, or_false] at member
      rcases member with (rfl | ⟨entry, isEntry, inside⟩) | rfl
      · exact ⟨token.span, by simp [spans], .refl _⟩
      · exact ⟨entry.span, List.mem_append_right _ (List.mem_map_of_mem isEntry),
          Token.coverSpan_covers inside⟩
      · exact ⟨token.span, by simp [spans], .refl _⟩

theorem Property.covers {property : Property} {token : Token}
    (member : token ∈ property.tokens) :
    property.span.Covers token.span := by
  simp only [tokens, List.cons_append, List.nil_append,
    List.mem_cons] at member
  rcases member with rfl | rfl | inValue
  · exact Span.covers_of_mem (by simp)
  · exact Span.covers_of_mem (by simp)
  · obtain ⟨span, isPart, covers⟩ := PropertyValue.exists_covers inValue
    exact (Span.covers_of_mem (List.mem_append_right _ isPart)).trans covers

namespace Block

/-- A block covers each of its tokens. -/
theorem covers {block : Block} {token : Token}
    (member : token ∈ block.tokens) : block.span.Covers token.span := by
  simp only [tokens, List.cons_append, List.nil_append, List.mem_append,
    List.mem_cons, List.mem_flatMap, List.not_mem_nil, or_false] at member
  rcases member with rfl | rfl | rfl | ⟨property, isProperty, inside⟩ | rfl
  · exact Span.covers_of_mem (by simp)
  · exact Span.covers_of_mem (by simp)
  · exact Span.covers_of_mem (by simp)
  · have isPart := List.mem_map_of_mem (f := Property.span) isProperty
    exact (Span.covers_of_mem (List.mem_append_right _ isPart)).trans
      (Property.covers inside)
  · exact Span.covers_of_mem (by simp)

/-- A block ends where one of its tokens does. -/
theorem exists_finish (block : Block) :
    SomeEndsWith block.tokens block.span := by
  have anySpan : [block.keyword.span, block.name.span,
      block.openBracket.span, block.closeBracket.span] ++
        block.properties.map Property.span ≠ [] := by simp
  obtain ⟨span, member, finish⟩ := Span.exists_finish_cover anySpan
  have ends : SomeEndsWith block.tokens span := by
    simp only [List.cons_append, List.nil_append, List.mem_cons,
      List.mem_map] at member
    rcases member with rfl | rfl | rfl | rfl | ⟨property, isProperty, rfl⟩
    · exact someEndsWith_self (by simp [tokens])
    · exact someEndsWith_self (by simp [tokens])
    · exact someEndsWith_self (by simp [tokens])
    · exact someEndsWith_self (by simp [tokens])
    · apply property.someEndsWith_span.mono
      intro token inside
      simp only [tokens, List.mem_append, List.mem_flatMap]
      exact Or.inl (Or.inr ⟨property, isProperty, inside⟩)
  obtain ⟨token, isToken, here⟩ := ends
  exact ⟨token, isToken, finish.trans here⟩

theorem le_finish_span (block : Block) :
    block.closeBracket.span.finish ≤ block.span.finish :=
  Span.le_finish_cover (by simp)

theorem start_span_le (block : Block) :
    block.span.start ≤ block.keyword.span.start :=
  Span.start_cover_le (by simp)

end Block

theorem Statement.exists_finish (statement : Statement) :
    Token.SomeEndsWith statement.tokens statement.span := by
  cases statement with
  | version version =>
      exact Token.someEndsWith_coverSpan
        (by simp [tokens, VersionStatement.tokens])
  | block block => exact block.exists_finish

end WorkflowLang
