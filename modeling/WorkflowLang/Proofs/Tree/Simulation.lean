import WorkflowLang.Proofs.Tree.Mapping
import WorkflowLang.Proofs.Tree.Repetition

/-!
# Two parsers side by side

Inside a statement every step can be resumed on a statement keyword and never
asks for one.  A simulation relates two cursors so that such steps return tokens
that look alike and keep the cursors related; then everything inside a statement
looks alike (`Simulation.parseAfterKeyword`).  The cursors need not be at the end
together: where only the second one is, the first has to give up.
-/

namespace WorkflowLang

open TokenKind (statementKeywords propertyKeywords)

/-- The steps taken inside a statement. -/
def IsInner (resumable expected : List TokenKind) : Prop :=
  ∀ kind ∈ statementKeywords, kind ∈ resumable ∧ kind ∉ expected

instance (resumable expected : List TokenKind) :
    Decidable (IsInner resumable expected) :=
  inferInstanceAs (Decidable (∀ kind ∈ statementKeywords, _))

/-- Steps from related cursors return tokens of one look and lead to related
cursors. -/
structure Simulation (view : Token → Token)
    (Related : Cursor → Cursor → Prop) : Prop where
  kind_view : ∀ token, (view token).kind = token.kind
  take : ∀ {first second : Cursor} {resumable expected : List TokenKind},
    IsInner resumable expected → Related first second →
      view (first.take resumable expected).1 =
          view (second.take resumable expected).1 ∧
        Related (first.take resumable expected).2
          (second.take resumable expected).2
  takeComma : ∀ {first second : Cursor}, Related first second →
    first.takeComma.1.map view = second.takeComma.1.map view ∧
      Related first.takeComma.2 second.takeComma.2
  isNext_eq : ∀ {first second : Cursor} {kind : TokenKind},
    Related first second → kind ∉ statementKeywords →
      first.isNext kind = second.isNext kind
  isAtEnd : ∀ {first second : Cursor}, Related first second →
    first.isAtEnd = true → second.isAtEnd = true
  gives_up : ∀ {first second : Cursor} {resumable expected : List TokenKind},
    IsInner resumable expected → Related first second →
      second.isAtEnd = true → first.isAtEnd = false →
        (first.take resumable expected).1.isMissing = true ∧
          Related (first.take resumable expected).2 second

namespace Simulation

variable {view : Token → Token} {Related : Cursor → Cursor → Prop}

theorem kind_eq (simulation : Simulation view Related) {first second : Token}
    (alike : view first = view second) : first.kind = second.kind := by
  rw [← simulation.kind_view first, alike, simulation.kind_view]

theorem isMissing_eq (simulation : Simulation view Related)
    {first second : Token} (alike : view first = view second) :
    first.isMissing = second.isMissing := by
  rw [Token.isMissing, simulation.kind_eq alike, Token.isMissing]

theorem isBefore (simulation : Simulation view Related)
    {first second : Cursor} {close : TokenKind} (related : Related first second)
    (closing : close ∉ statementKeywords)
    (before : first.isBefore close = true) :
    second.isBefore close = true := by
  rw [Cursor.isBefore, Bool.or_eq_true] at before ⊢
  rcases before with atEnd | isNext
  · exact Or.inl (simulation.isAtEnd related atEnd)
  · rw [← simulation.isNext_eq related closing]
    exact Or.inr isNext

/-- Where only the second loop stops, it stops at the end. -/
theorem isAtEnd_of_isBefore (simulation : Simulation view Related)
    {first second : Cursor} {close : TokenKind} (related : Related first second)
    (closing : close ∉ statementKeywords)
    (goes : first.isBefore close = false)
    (stops : second.isBefore close = true) :
    second.isAtEnd = true ∧ first.isAtEnd = false := by
  rw [Cursor.isBefore, Bool.or_eq_false_iff] at goes
  rw [Cursor.isBefore, Bool.or_eq_true] at stops
  rcases stops with atEnd | isNext
  · exact ⟨atEnd, goes.1⟩
  · rw [← simulation.isNext_eq related closing, goes.2] at isNext
    contradiction

theorem repeats (simulation : Simulation view Related) {Piece : Type}
    {close : TokenKind} {resumable expected : List TokenKind}
    {parsePiece : Token → Cursor → Piece × Cursor} {mapPiece : Piece → Piece}
    (closing : close ∉ statementKeywords)
    (inner : IsInner resumable expected)
    (pieces_alike : ∀ {token other : Token} {first second : Cursor},
      view token = view other → Related first second →
        mapPiece (parsePiece token first).1 =
            mapPiece (parsePiece other second).1 ∧
          Related (parsePiece token first).2 (parsePiece other second).2)
    {first second firstFinish secondFinish : Cursor}
    {pieces others : List Piece} (related : Related first second)
    (firstRun : first.Repeats close resumable expected parsePiece pieces
      firstFinish)
    (secondRun : second.Repeats close resumable expected parsePiece others
      secondFinish) :
    pieces.map mapPiece = others.map mapPiece ∧
      Related firstFinish secondFinish := by
  induction firstRun generalizing second others with
  | stop before =>
      have secondBefore := simulation.isBefore related closing before
      cases secondRun with
      | stop _ => exact ⟨rfl, related⟩
      | giveUp goes _ => simp [secondBefore] at goes
      | piece goes _ _ => simp [secondBefore] at goes
  | @giveUp first goes absent =>
      obtain ⟨alike, taken⟩ := simulation.take inner related
      have missing := simulation.isMissing_eq alike
      cases secondRun with
      | stop stops =>
          obtain ⟨atEnd, ahead⟩ :=
            simulation.isAtEnd_of_isBefore related closing goes stops
          exact ⟨rfl, (simulation.gives_up inner related atEnd ahead).2⟩
      | giveUp _ _ => exact ⟨rfl, taken⟩
      | piece _ present _ => simp [missing, present] at absent
  | @piece first firstFinish pieces goes present _ inductionHypothesis =>
      obtain ⟨alike, taken⟩ := simulation.take inner related
      have missing := simulation.isMissing_eq alike
      cases secondRun with
      | stop stops =>
          obtain ⟨atEnd, ahead⟩ :=
            simulation.isAtEnd_of_isBefore related closing goes stops
          have absent := (simulation.gives_up inner related atEnd ahead).1
          simp [present] at absent
      | giveUp _ absent => simp [← missing, present] at absent
      | piece _ _ run =>
          obtain ⟨pieceAlike, behind⟩ := pieces_alike alike taken
          obtain ⟨othersAlike, finish⟩ := inductionHypothesis behind run
          exact ⟨by rw [List.map_cons, List.map_cons, pieceAlike, othersAlike],
            finish⟩

open SyntaxTree

theorem parseItem (simulation : Simulation view Related)
    {token other : Token} {first second : Cursor}
    (alike : view token = view other) (related : Related first second) :
    (parseItem token first).1.mapTokens view =
        (parseItem other second).1.mapTokens view ∧
      Related (SyntaxTree.parseItem token first).2
        (SyntaxTree.parseItem other second).2 := by
  obtain ⟨comma, behind⟩ := simulation.takeComma related
  refine ⟨?_, behind⟩
  simp [SyntaxTree.parseItem, ArrayItem.mapTokens, alike, comma]

theorem parseItems (simulation : Simulation view Related)
    {first second : Cursor} (related : Related first second) :
    (parseItems first).1.map (ArrayItem.mapTokens view) =
        (parseItems second).1.map (ArrayItem.mapTokens view) ∧
      Related (SyntaxTree.parseItems first).2
        (SyntaxTree.parseItems second).2 :=
  simulation.repeats (by decide) (by decide) simulation.parseItem related
    (parseItems_repeats first) (parseItems_repeats second)

theorem parseMember (simulation : Simulation view Related)
    {token other : Token} {first second : Cursor}
    (alike : view token = view other) (related : Related first second) :
    (parseMember token first).1.mapTokens view =
        (parseMember other second).1.mapTokens view ∧
      Related (SyntaxTree.parseMember token first).2
        (SyntaxTree.parseMember other second).2 := by
  obtain ⟨equal, behindEqual⟩ := simulation.take
    (show IsInner memberResumable [.equal] by decide) related
  obtain ⟨value, behindValue⟩ := simulation.take
    (show IsInner memberResumable [.string] by decide) behindEqual
  obtain ⟨comma, behind⟩ := simulation.takeComma behindValue
  refine ⟨?_, behind⟩
  simp [SyntaxTree.parseMember, ObjectMember.mapTokens, alike, equal, value,
    comma]

theorem parseMembers (simulation : Simulation view Related)
    {first second : Cursor} (related : Related first second) :
    (parseMembers first).1.map (ObjectMember.mapTokens view) =
        (parseMembers second).1.map (ObjectMember.mapTokens view) ∧
      Related (SyntaxTree.parseMembers first).2
        (SyntaxTree.parseMembers second).2 :=
  simulation.repeats (by decide) (by decide) simulation.parseMember related
    (parseMembers_repeats first) (parseMembers_repeats second)

theorem parseValue (simulation : Simulation view Related)
    {token other : Token} {first second : Cursor}
    (alike : view token = view other) (related : Related first second) :
    (parseValue token first).1.mapTokens view =
        (parseValue other second).1.mapTokens view ∧
      Related (SyntaxTree.parseValue token first).2
        (SyntaxTree.parseValue other second).2 := by
  have sameKind := simulation.kind_eq alike
  unfold SyntaxTree.parseValue
  rw [← sameKind]
  split
  · obtain ⟨items, behindItems⟩ := simulation.parseItems related
    obtain ⟨close, behind⟩ := simulation.take
      (show IsInner propertyResumable [.rightBracket] by decide) behindItems
    refine ⟨?_, behind⟩
    simp [PropertyValue.mapTokens, alike, items, close]
  · obtain ⟨members, behindMembers⟩ := simulation.parseMembers related
    obtain ⟨close, behind⟩ := simulation.take
      (show IsInner propertyResumable [.rightBrace] by decide) behindMembers
    refine ⟨?_, behind⟩
    simp [PropertyValue.mapTokens, alike, members, close]
  · exact ⟨by simp [PropertyValue.mapTokens, alike], related⟩

theorem parseProperty (simulation : Simulation view Related)
    {token other : Token} {first second : Cursor}
    (alike : view token = view other) (related : Related first second) :
    (parseProperty token first).1.mapTokens view =
        (parseProperty other second).1.mapTokens view ∧
      Related (SyntaxTree.parseProperty token first).2
        (SyntaxTree.parseProperty other second).2 := by
  obtain ⟨equal, behindEqual⟩ := simulation.take
    (show IsInner propertyResumable [.equal] by decide) related
  obtain ⟨begins, behindFirst⟩ := simulation.take
    (show IsInner propertyResumable [.string, .leftBrace, .leftBracket] by
      decide) behindEqual
  obtain ⟨value, behind⟩ := simulation.parseValue begins behindFirst
  refine ⟨?_, behind⟩
  simp [SyntaxTree.parseProperty, Property.mapTokens, alike, equal, value]

theorem parseProperties (simulation : Simulation view Related)
    {first second : Cursor} (related : Related first second) :
    (parseProperties first).1.map (Property.mapTokens view) =
        (parseProperties second).1.map (Property.mapTokens view) ∧
      Related (SyntaxTree.parseProperties first).2
        (SyntaxTree.parseProperties second).2 :=
  simulation.repeats (by decide) (by decide) simulation.parseProperty related
    (parseProperties_repeats first) (parseProperties_repeats second)

theorem parseVersion (simulation : Simulation view Related)
    {token other : Token} {first second : Cursor}
    (alike : view token = view other) (related : Related first second) :
    (parseVersion token first).1.mapTokens view =
        (parseVersion other second).1.mapTokens view ∧
      Related (SyntaxTree.parseVersion token first).2
        (SyntaxTree.parseVersion other second).2 := by
  obtain ⟨equal, behindEqual⟩ := simulation.take
    (show IsInner statementKeywords [.equal] by decide) related
  obtain ⟨integer, behind⟩ := simulation.take
    (show IsInner statementKeywords [.integer] by decide) behindEqual
  refine ⟨?_, behind⟩
  simp [SyntaxTree.parseVersion, VersionStatement.mapTokens, alike, equal,
    integer]

theorem parseBlock (simulation : Simulation view Related) (kind : BlockKind)
    {token other : Token} {first second : Cursor}
    (alike : view token = view other) (related : Related first second) :
    (parseBlock kind token first).1.mapTokens view =
        (parseBlock kind other second).1.mapTokens view ∧
      Related (SyntaxTree.parseBlock kind token first).2
        (SyntaxTree.parseBlock kind other second).2 := by
  obtain ⟨name, behindName⟩ := simulation.take
    (show IsInner statementKeywords [.string] by decide) related
  obtain ⟨opens, behindOpen⟩ := simulation.take
    (show IsInner statementKeywords [.leftBrace] by decide) behindName
  obtain ⟨properties, behindProperties⟩ :=
    simulation.parseProperties behindOpen
  obtain ⟨closes, behind⟩ := simulation.take
    (show IsInner statementKeywords [.rightBrace] by decide) behindProperties
  refine ⟨?_, behind⟩
  simp [SyntaxTree.parseBlock, Block.mapTokens, alike, name, opens,
    properties, closes]

theorem parseAfterKeyword (simulation : Simulation view Related)
    {token other : Token} {first second : Cursor}
    (alike : view token = view other) (related : Related first second) :
    (parseAfterKeyword token first).1.map (Statement.mapTokens view) =
        (parseAfterKeyword other second).1.map (Statement.mapTokens view) ∧
      Related (SyntaxTree.parseAfterKeyword token first).2
        (SyntaxTree.parseAfterKeyword other second).2 := by
  have sameKind := simulation.kind_eq alike
  unfold SyntaxTree.parseAfterKeyword
  rw [← sameKind]
  split
  · obtain ⟨version, behind⟩ := simulation.parseVersion alike related
    exact ⟨by simp [Statement.mapTokens, version], behind⟩
  · obtain ⟨block, behind⟩ := simulation.parseBlock .workflow alike related
    exact ⟨by simp [Statement.mapTokens, block], behind⟩
  · obtain ⟨block, behind⟩ := simulation.parseBlock .action alike related
    exact ⟨by simp [Statement.mapTokens, block], behind⟩
  · exact ⟨rfl, related⟩

/-- A parser runs beside itself: what its steps keep, a statement keeps. -/
theorem of_invariant {Invariant : Cursor → Prop}
    (take : ∀ {cursor : Cursor} {resumable expected : List TokenKind},
      IsInner resumable expected → Invariant cursor →
        Invariant (cursor.take resumable expected).2)
    (takeComma : ∀ {cursor : Cursor}, Invariant cursor →
      Invariant cursor.takeComma.2) :
    Simulation id fun first second =>
      first = second ∧ Invariant first where
  kind_view _ := rfl
  take := by
    rintro first _ resumable expected inner ⟨rfl, kept⟩
    exact ⟨rfl, rfl, take inner kept⟩
  takeComma := by
    rintro first _ ⟨rfl, kept⟩
    exact ⟨rfl, rfl, takeComma kept⟩
  isNext_eq := by
    rintro first _ kind ⟨rfl, _⟩ _
    rfl
  isAtEnd := by
    rintro first _ ⟨rfl, _⟩ atEnd
    exact atEnd
  gives_up := by
    rintro first _ _ _ _ ⟨rfl, _⟩ atEnd ahead
    rw [atEnd] at ahead
    contradiction

/-- What every step inside a statement keeps is kept behind its keyword. -/
theorem invariant_parseAfterKeyword (Invariant : Cursor → Prop)
    (take : ∀ {cursor : Cursor} {resumable expected : List TokenKind},
      IsInner resumable expected → Invariant cursor →
        Invariant (cursor.take resumable expected).2)
    (takeComma : ∀ {cursor : Cursor}, Invariant cursor →
      Invariant cursor.takeComma.2)
    (keyword : Token) {cursor : Cursor} (kept : Invariant cursor) :
    Invariant (SyntaxTree.parseAfterKeyword keyword cursor).2 :=
  ((of_invariant take takeComma).parseAfterKeyword
    (show id keyword = id keyword from rfl) ⟨rfl, kept⟩).2.2

end Simulation

end WorkflowLang
