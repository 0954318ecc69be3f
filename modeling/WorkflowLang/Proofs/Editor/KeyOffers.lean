import WorkflowLang.Editor.Completion
import WorkflowLang.Proofs.Editor.Targets
import WorkflowLang.Proofs.Tree.Closing

/-!
# Where keys are offered

Keys are meant for the place between the braces of a block.  Spans are closed
intervals, and only the opening bracket is looked at by itself: right behind its
closing bracket a block still offers its keys, and a block without an opening bracket
offers them in its header.  Nowhere else are keys offered outside of the braces of a
block that may define them (`Compilation.offersInBraces_iff`).
-/

namespace WorkflowLang

theorem BlockKind.eq_of_properties_subset {kind other : BlockKind}
    (subset : kind.properties ⊆ other.properties) : kind = other := by
  cases kind <;> cases other <;> simp_all [properties]

theorem Position.eq_right_one {position other : Position}
    (behind : ¬position ≤ other) (within : position ≤ other.right 1) :
    position = other.right 1 := by
  cases position
  simp only [le_def, right, mk.injEq] at *
  omega

namespace Block

/-- A position is in the body of a block: the block is opened in front of the position,
and if it is closed then not in front of it. -/
structure Embraces (block : Block) (position : Position) : Prop where
  isOpened : block.openBracket.isMissing = false
  opened : block.openBracket.span.finish ≤ position
  notClosed : block.closeBracket.isMissing = false →
    position ≤ block.closeBracket.span.start

/-- The positions at which a block that they touch offers its keys. -/
structure OffersKeys (block : Block) (position : Position) : Prop where
  opened : block.openBracket.isMissing = false →
    block.openBracket.span.finish ≤ position
  between : ∀ property ∈ block.properties, ¬property.span.Contains position

/-- The block has no opening bracket, or the position is right behind its closing
bracket. -/
def IsOutside (block : Block) (position : Position) : Prop :=
  block.openBracket.isMissing = true ∨
    block.closeBracket.isMissing = false ∧
      position = block.closeBracket.span.finish

instance (block : Block) (position : Position) :
    Decidable (block.Embraces position) :=
  decidable_of_iff (block.openBracket.isMissing = false ∧
      block.openBracket.span.finish ≤ position ∧
        (block.closeBracket.isMissing = false →
          position ≤ block.closeBracket.span.start))
    ⟨fun ⟨isOpened, opened, notClosed⟩ => ⟨isOpened, opened, notClosed⟩,
      fun ⟨isOpened, opened, notClosed⟩ => ⟨isOpened, opened, notClosed⟩⟩

instance (block : Block) (position : Position) :
    Decidable (block.OffersKeys position) :=
  decidable_of_iff ((block.openBracket.isMissing = false →
      block.openBracket.span.finish ≤ position) ∧
        ∀ property ∈ block.properties, ¬property.span.Contains position)
    ⟨fun ⟨opened, between⟩ => ⟨opened, between⟩,
      fun ⟨opened, between⟩ => ⟨opened, between⟩⟩

instance (block : Block) (position : Position) :
    Decidable (block.IsOutside position) :=
  inferInstanceAs (Decidable (_ ∨ _))

theorem IsOutside.not_embraces {block : Block} {position : Position}
    (outside : block.IsOutside position)
    (wide : block.closeBracket.isMissing = false →
      block.closeBracket.IsWide) : ¬block.Embraces position := by
  rintro ⟨isOpened, -, notClosed⟩
  rcases outside with unopened | ⟨closed, rfl⟩
  · rw [unopened] at isOpened
    contradiction
  · exact (wide closed).not_finish_le (notClosed closed)

end Block

namespace Compilation

variable {compilation : Compilation} {position : Position}

theorem property_not_mem_propertyCompletions (property : Property)
    (key : TokenKind) :
    Completion.property key ∉
      compilation.propertyCompletions property position := by
  rw [propertyCompletions]
  split
  · split <;> simp
  · simp

theorem property_mem_blockCompletions_iff {block : Block} {key : TokenKind} :
    Completion.property key ∈ compilation.blockCompletions block position ↔
      block.OffersKeys position ∧ key ∈ block.kind.properties := by
  simp only [blockCompletions, Bool.and_eq_true, Bool.not_eq_true',
    decide_eq_false_iff_not]
  split
  · next behind =>
    refine iff_of_false List.not_mem_nil fun offers => ?_
    exact behind.2 (offers.1.opened behind.1)
  · next notBehind =>
    have opened : block.openBracket.isMissing = false →
        block.openBracket.span.finish ≤ position := by simpa using notBehind
    split
    · next property found =>
      have touches : property.span.Contains position := by
        simpa using List.find?_some found
      refine iff_of_false
        (property_not_mem_propertyCompletions property key) fun offers => ?_
      exact offers.1.between property (List.mem_of_find?_eq_some found) touches
    · next apart =>
      have offers : block.OffersKeys position :=
        ⟨opened, by simpa using apart⟩
      simp [offers]

/-- The first block that touches a position. -/
def Touches (compilation : Compilation) (position : Position)
    (block : Block) : Prop :=
  (compilation.tree.blocks.find? fun block =>
    decide (block.span.Contains position)) = some block

instance (block : Block) : Decidable (compilation.Touches position block) :=
  inferInstanceAs (Decidable (_ = _))

theorem Touches.mem {block : Block}
    (touches : compilation.Touches position block) :
    block ∈ compilation.tree.blocks :=
  List.mem_of_find?_eq_some touches

theorem Touches.contains {block : Block}
    (touches : compilation.Touches position block) :
    block.span.Contains position := by
  simpa using List.find?_some touches

/-- The first block that touches a position offers all of its keys or none. -/
theorem property_mem_completions_iff {key : TokenKind} :
    Completion.property key ∈ compilation.completions position ↔
      ∃ block, compilation.Touches position block ∧
        block.OffersKeys position ∧ key ∈ block.kind.properties := by
  rw [completions]
  split
  · next apart => simp [Touches, apart]
  · next block found =>
    simp [Touches, found, property_mem_blockCompletions_iff]

/-- If keys are offered, then in the body of a block that may define them. -/
def OffersInBraces (compilation : Compilation) (position : Position) : Prop :=
  (∃ key, Completion.property key ∈ compilation.completions position) →
    ∃ block ∈ compilation.tree.blocks,
      (∀ key, Completion.property key ∈ compilation.completions position →
        key ∈ block.kind.properties) ∧
      block.Embraces position

/-- A block offers its keys outside of braces: it is the first one that touches the
position, no property of it does, and it has no opening bracket or the position is right
behind its closing one.  No block of its kind is left open in front of the position. -/
structure OffersOutside (compilation : Compilation) (position : Position)
    (block : Block) : Prop where
  touches : compilation.Touches position block
  offers : block.OffersKeys position
  outside : block.IsOutside position
  noneOpen : ∀ other ∈ compilation.tree.blocks, other.kind = block.kind →
    other.Embraces position → other.closeBracket.isMissing = false

variable {text : String} {block : Block}

section

variable (isBlock : block ∈ (ofText text).tree.blocks)
include isBlock

/-- The keyword and the brackets of a closed block follow each other. -/
theorem follow_brackets (opened : block.openBracket.isMissing = false)
    (closed : block.closeBracket.isMissing = false) :
    Token.Follow [block.keyword, block.openBracket, block.closeBracket] := by
  have inBlock : [block.keyword, block.openBracket, block.closeBracket].Sublist
      block.tokens := by
    have opens : [block.keyword, block.openBracket].Sublist
        [block.keyword, block.name, block.openBracket] :=
      (List.sublist_cons_self _ _).cons_cons _
    exact (opens.trans (List.sublist_append_left _ _)).append
      (List.Sublist.refl [block.closeBracket])
  apply Parse.follow_of_present
    (inBlock.trans (tokens_sublist_of_mem_blocks isBlock))
  simp [isMissing_keyword isBlock, opened, closed]

theorem isWide_closeBracket (closed : block.closeBracket.isMissing = false) :
    block.closeBracket.IsWide :=
  ⟨1, Nat.one_pos, Parse.finish_closeBracket isBlock closed⟩

/-- A block that offers its keys at a position has it in its body, unless the position
is outside. -/
theorem embraces_or_isOutside (touches : block.span.Contains position)
    (offers : block.OffersKeys position) :
    block.Embraces position ∨ block.IsOutside position := by
  by_cases opened : block.openBracket.isMissing = true
  · exact Or.inr (Or.inl opened)
  rw [Bool.not_eq_true] at opened
  by_cases notClosed : block.closeBracket.isMissing = false →
      position ≤ block.closeBracket.span.start
  · exact Or.inl ⟨opened, offers.opened opened, notClosed⟩
  obtain ⟨closed, behind⟩ := Classical.not_imp.mp notClosed
  -- The block ends with its closing bracket, which is one column wide.
  have within := touches.2
  rw [Parse.finish_span_of_closed isBlock closed,
    Parse.finish_closeBracket isBlock closed] at within
  refine Or.inr (Or.inr ⟨closed, ?_⟩)
  rw [Parse.finish_closeBracket isBlock closed]
  exact Position.eq_right_one behind within

/-- A closed block touches the positions in its body, and they are behind the end of
its keyword. -/
theorem contains_of_embraces (embraces : block.Embraces position)
    (closed : block.closeBracket.isMissing = false) :
    block.span.Contains position ∧
      ¬position ≤ block.keyword.span.finish := by
  have follow := follow_brackets isBlock embraces.isOpened closed
  have wide := follow.wide block.openBracket (by simp)
  have inFront : block.keyword.IsBefore block.openBracket := by
    exact (List.pairwise_cons.mp follow.pairwise).1 _ (by simp)
  have starts : block.span.start ≤ block.openBracket.span.start :=
    (Block.covers (by simp [Block.tokens])).1
  refine ⟨⟨?_, ?_⟩, fun inHeader => ?_⟩
  · exact Position.le_trans starts
      (Position.le_trans wide.start_le_finish embraces.opened)
  · exact Position.le_trans (embraces.notClosed closed)
      (Position.le_trans (isWide_closeBracket isBlock closed).start_le_finish
        block.le_finish_span)
  · exact wide.not_finish_le (Position.le_trans embraces.opened
      (Position.le_trans inHeader inFront))

/-- A position outside of the first block that it touches is in the body of no closed
block. -/
theorem not_embraces_of_touches {first : Block}
    (touches : (ofText text).Touches position first)
    (outside : first.IsOutside position)
    (closed : block.closeBracket.isMissing = false) :
    ¬block.Embraces position := by
  intro embraces
  obtain ⟨contains, behindKeyword⟩ :=
    contains_of_embraces isBlock embraces closed
  obtain ⟨-, before, after, split, isFirst⟩ :=
    List.find?_eq_some_iff_append.mp touches
  have reach := Parse.pairwise_reach Position.origin text.toList
  change (ofText text).tree.blocks.Pairwise _ at reach
  rw [split] at reach isBlock
  -- No block in front of the first one touches the position, and no later one has its
  -- keyword end in front of it.
  rcases List.mem_append.mp isBlock with isBefore | isFrom
  · have apart := isFirst block isBefore
    simp [contains] at apart
  rcases List.mem_cons.mp isFrom with rfl | isAfter
  · exact outside.not_embraces
      (fun closed => isWide_closeBracket touches.mem closed) embraces
  · have ends : first.span.finish ≤ block.keyword.span.finish :=
      (List.pairwise_cons.mp (List.pairwise_append.mp reach).2.1).1 block
        isAfter
    exact behindKeyword (Position.le_trans touches.contains.2 ends)

end

theorem OffersOutside.not_offersInBraces
    (offersOutside : (ofText text).OffersOutside position block) :
    ¬(ofText text).OffersInBraces position := by
  obtain ⟨touches, offers, outside, noneOpen⟩ := offersOutside
  have offered {key : TokenKind} (isKey : key ∈ block.kind.properties) :
      Completion.property key ∈ (ofText text).completions position :=
    property_mem_completions_iff.mpr ⟨block, touches, offers, isKey⟩
  intro inBraces
  obtain ⟨other, isOther, defines, embraces⟩ := inBraces
    ⟨block.kind.requiredProperty, offered (by cases block.kind <;> decide)⟩
  have sameKind : block.kind = other.kind :=
    BlockKind.eq_of_properties_subset fun key isKey =>
      defines key (offered isKey)
  exact not_embraces_of_touches isOther touches outside
    (noneOpen other isOther sameKind.symm embraces) embraces

/-- The keys offered at a position are offered in the body of a block, or the block
that offers them does so outside of braces. -/
theorem offersInBraces_or_outside (text : String) (position : Position) :
    (ofText text).OffersInBraces position ∨
      ∃ block, (ofText text).OffersOutside position block := by
  by_cases offered :
      ∃ key, Completion.property key ∈ (ofText text).completions position
  case neg => exact Or.inl fun someKey => absurd someKey offered
  obtain ⟨key, offered⟩ := offered
  obtain ⟨block, touches, offers, -⟩ :=
    property_mem_completions_iff.mp offered
  have defines (other : Block) (sameKind : other.kind = block.kind) :
      ∀ key, Completion.property key ∈ (ofText text).completions position →
        key ∈ other.kind.properties := by
    intro key offered
    obtain ⟨found, alsoTouches, -, isKey⟩ :=
      property_mem_completions_iff.mp offered
    obtain rfl : block = found :=
      Option.some.inj (touches.symm.trans alsoTouches)
    rwa [sameKind]
  by_cases someEmbraces : ∃ other ∈ (ofText text).tree.blocks,
      other.kind = block.kind ∧ other.Embraces position
  · obtain ⟨other, isOther, sameKind, embraces⟩ := someEmbraces
    exact Or.inl fun _ => ⟨other, isOther, defines other sameKind, embraces⟩
  · have noneEmbraces (other : Block)
        (isOther : other ∈ (ofText text).tree.blocks)
        (sameKind : other.kind = block.kind) : ¬other.Embraces position :=
      fun embraces => someEmbraces ⟨other, isOther, sameKind, embraces⟩
    have outside := (embraces_or_isOutside touches.mem touches.contains
      offers).resolve_left (noneEmbraces block touches.mem rfl)
    exact Or.inr ⟨block, touches, offers, outside,
      fun other isOther sameKind embraces =>
        absurd embraces (noneEmbraces other isOther sameKind)⟩

/-- Keys are offered in braces, but for the blocks that offer theirs outside. -/
theorem offersInBraces_iff (text : String) (position : Position) :
    (ofText text).OffersInBraces position ↔
      ¬∃ block, (ofText text).OffersOutside position block := by
  constructor
  · rintro inBraces ⟨block, offersOutside⟩
    exact offersOutside.not_offersInBraces inBraces
  · exact (offersInBraces_or_outside text position).resolve_right

/-- An action with an empty body, and one without a body. -/
def emptyAction : Block :=
  ⟨.action, ⟨.action, .single 0 0 6, "action"⟩,
    ⟨.string, .single 0 7 3, "\"a\""⟩,
    ⟨.leftBrace, .single 0 11 1, "\x7b"⟩, [],
    ⟨.rightBrace, .single 0 12 1, "\x7d"⟩⟩

def bareAction : Block :=
  ⟨.action, ⟨.action, .single 0 0 6, "action"⟩,
    .missing (.single 0 0 6), .missing (.single 0 0 6), [],
    .missing (.single 0 0 6)⟩

/-- Keys are offered right behind a closing bracket, and on the keyword of a block
without brackets. -/
theorem keys_offered_outside :
    ¬(ofText "action \"a\" \x7b\x7d").OffersInBraces ⟨0, 13⟩ ∧
      ¬(ofText "action").OffersInBraces ⟨0, 3⟩ := by
  have behind : (ofText "action \"a\" \x7b\x7d").OffersOutside ⟨0, 13⟩
      emptyAction :=
    ⟨by decide +kernel, by decide, by decide, by decide +kernel⟩
  have unopened : (ofText "action").OffersOutside ⟨0, 3⟩ bareAction :=
    ⟨by decide +kernel, by decide, by decide, by decide +kernel⟩
  exact ⟨behind.not_offersInBraces, unopened.not_offersInBraces⟩

end Compilation

end WorkflowLang
