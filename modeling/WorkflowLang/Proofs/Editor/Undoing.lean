import WorkflowLang.Proofs.Document.Moving
import WorkflowLang.Proofs.Editor.Cursor
import WorkflowLang.Proofs.Token.Gaps
import WorkflowLang.Proofs.Tree.Shape

/-!
# Undoing a renaming

Renaming moves the tokens of a text and replaces some of them.  Each token of the
text has become one token of the result (`Compilation.Becomes`), the tree of the
result is the tree of the text with these tokens, and if nothing had the new name
before, the tokens that say it are those that were replaced.  So a second renaming,
from any of them back to the old name, edits the same strings and gives the text
again (`Compilation.rename_undone`).
-/

namespace WorkflowLang

/-- Tokens in place of others are the image of these, each the one of its place. -/
theorem exists_map_of_map_unplaced {view : Token → Token}
    {before after : List Token} (distinct : before.Nodup)
    (same : after.map Token.unplaced =
      (before.map view).map Token.unplaced) :
    ∃ moved : Token → Token, after = before.map moved ∧
      ∀ token, (moved token).unplaced = (view token).unplaced := by
  induction before generalizing after with
  | nil => exact ⟨view, List.map_eq_nil_iff.mp same, fun _ => rfl⟩
  | cons token others inductionHypothesis =>
      cases after with
      | nil => simp at same
      | cons next rest =>
          obtain ⟨here, behind⟩ := List.cons.inj same
          obtain ⟨absent, othersDistinct⟩ := List.nodup_cons.mp distinct
          obtain ⟨moved, rfl, alike⟩ := inductionHypothesis othersDistinct behind
          refine ⟨Function.update moved token next, ?_, fun other => ?_⟩
          · rw [List.map_cons, Function.update_self, List.cons.injEq]
            refine ⟨rfl, List.map_congr_left fun other isOther => ?_⟩
            rw [Function.update_of_ne]
            rintro rfl
            exact absent isOther
          · by_cases isToken : other = token
            · rw [isToken, Function.update_self]
              exact here
            · rw [Function.update_of_ne isToken]
              exact alike other

/-- A chosen token with the pieces before it. -/
theorem SpacedToken.exists_split_of_filter {pieces : List SpacedToken}
    {chosen : Token → Bool} {front back : List Token} {token : Token}
    (split : (pieces.map SpacedToken.token).filter chosen =
      front ++ token :: back) :
    ∃ before piece after, pieces = before ++ piece :: after ∧
      piece.token = token ∧
        (before.map SpacedToken.token).filter chosen = front := by
  rw [List.filter_map] at split
  obtain ⟨first, second, chosenPieces, rfl, behind⟩ :=
    List.map_eq_append_iff.mp split
  obtain ⟨piece, rest, rfl, rfl, -⟩ := List.map_eq_cons_iff.mp behind
  obtain ⟨early, late, rfl, rfl, lateChosen⟩ :=
    List.filter_eq_append_iff.mp chosenPieces
  obtain ⟨skipped, after, rfl, notChosen, -, -⟩ :=
    List.filter_eq_cons_iff.mp lateChosen
  refine ⟨early ++ skipped, piece, after, by simp, rfl, ?_⟩
  have none : skipped.filter (chosen ∘ SpacedToken.token) = [] :=
    List.filter_eq_nil_iff.mpr notChosen
  rw [List.filter_map, List.filter_append, none, List.append_nil]

namespace TextEdit

/-- Edits in the order in which they are applied. -/
def inOrder (edits : List TextEdit) : List TextEdit :=
  edits.mergeSort fun first second =>
    decide (first.span.start ≤ second.span.start)

/-- Where the new text of an edit begins when the edits before it are applied to
the text before it. -/
def startIn? (text : String) (before : List TextEdit) (edit : TextEdit) :
    Option Position :=
  let front := text.toList.take (Text.offset text.toList edit.span.start)
  (applyFrom front 0 before).map Text.endPosition

example : startIn? "a b a" [⟨⟨⟨0, 0⟩, ⟨0, 1⟩⟩, "new"⟩]
    ⟨⟨⟨0, 4⟩, ⟨0, 5⟩⟩, "new"⟩ = some ⟨0, 6⟩ := by decide

end TextEdit

theorem isActionName_of_isPlainName {name : String} (nonempty : name ≠ "")
    (plain : IsPlainName name) : isActionName name = true := by
  have refused : name.toList.any (fun character =>
      ['"', '\\', '\r', '\n'].contains character) = false := by
    rw [List.any_eq_false]
    intro character member
    obtain ⟨notQuote, notBackslash, notControl⟩ := plain character member
    have notReturn : character ≠ '\r' := by
      rintro rfl
      exact absurd notControl (by decide)
    have notFeed : character ≠ '\n' := by
      rintro rfl
      exact absurd notControl (by decide)
    simp [notQuote, notBackslash, notReturn, notFeed]
  rw [isActionName, refused]
  simpa using nonempty

namespace Compilation

variable {text result old new : String} {moved : Token → Token}
  {pieces : List SpacedToken} {closing : List Char}

/-- Without syntax errors, a token that names an action is its name in quotes. -/
theorem text_of_names (clean : (ofText text).hasSyntaxErrors = false)
    {name : String} {token : Token}
    (names : token ∈ (ofText text).document.namingTokens name) :
    token.text = Text.quoted name := by
  have isCut := (isRecut clean token
    (mem_tokens_of_names clean names)).isCutBefore
      (show token.kind.EndsBefore [] by simp [TokenKind.EndsBefore])
  obtain ⟨inner, characters⟩ :=
    isCut.exists_inner (isString_of_names clean names)
  have quoted : token.text = Text.quoted (String.ofList inner) := by
    apply String.toList_injective
    rw [characters, Text.toList_quoted, String.toList_ofList]
  have named := unquote_of_names names
  rw [quoted, Text.unquote_quoted] at named
  rw [quoted, named]

/-- A text without syntax errors whose tokens are those of another one, moved, with a
new name in place of the name of an action. -/
structure Becomes (text result old new : String) (moved : Token → Token) :
    Prop where
  clean : (ofText result).hasSyntaxErrors = false
  tokens_eq : (ofText result).tokens = (ofText text).tokens.map moved
  unplaced_eq : ∀ token, (moved token).unplaced =
    (token.renameAmong ((ofText text).document.namingTokens old) new).unplaced

/-- Renaming makes of each token one of the result. -/
theorem IsCutInto.exists_becomes (isCut : IsCutInto text pieces closing)
    (clean : (ofText text).hasSyntaxErrors = false) (old : String)
    (plain : IsPlainName new) :
    ∃ moved, Becomes text (replacedText pieces closing
      ((ofText text).document.namingTokens old) new) old new moved := by
  have strings : ∀ token ∈ (ofText text).document.namingTokens old,
      token.kind = .string := fun _ names => isString_of_names clean names
  obtain ⟨scanned, tokens⟩ := isCut.scan_replacedText strings plain
  obtain ⟨moved, image, alike⟩ :=
    exists_map_of_map_unplaced (Scan.nodup_tokens _ _) tokens
  exact ⟨moved, (renamesAction_of_tokens clean scanned tokens).clean, image,
    alike⟩

namespace Becomes

variable (becomes : Becomes text result old new moved)

include becomes

theorem kind_moved (token : Token) : (moved token).kind = token.kind := by
  have same := congrArg Token.kind (becomes.unplaced_eq token)
  rwa [Token.kind_unplaced, Token.kind_unplaced, Token.kind_renameAmong]
    at same

theorem text_moved (token : Token) :
    (moved token).text = (token.renameAmong
      ((ofText text).document.namingTokens old) new).text := by
  have same := congrArg Token.text (becomes.unplaced_eq token)
  rwa [Token.text_unplaced, Token.text_unplaced] at same

theorem tree_eq (clean : (ofText text).hasSyntaxErrors = false) :
    (ofText result).tree = (ofText text).tree.mapTokens moved := by
  have quiet := ((hasSyntaxErrors_eq_false_iff text).mp clean).2
  have parsed := (Parse.ofTokens_map_of_kind becomes.kind_moved quiet).2
  have tokens : (Scan.ofText result).tokens =
      (Scan.ofText text).tokens.map moved :=
    becomes.tokens_eq
  rw [← tokens] at parsed
  exact parsed

/-- The tokens that say the new name are those that said the old one. -/
theorem mem_namingTokens (clean : (ofText text).hasSyntaxErrors = false)
    (fresh : (ofText text).document.namingTokens new = []) {token : Token} :
    token ∈ (ofText result).document.namingTokens new ↔
      ∃ original ∈ (ofText text).document.namingTokens old,
        moved original = token := by
  have bound : (ofText result).document =
      Document.ofTree ((ofText text).tree.mapTokens moved) :=
    congrArg Document.ofTree (becomes.tree_eq clean)
  rw [bound]
  exact SyntaxTree.mem_namingTokens_renamed becomes.kind_moved
    becomes.text_moved fresh

theorem eq_of_moved_eq {first second : Token}
    (isFirst : first ∈ (ofText text).tokens)
    (isSecond : second ∈ (ofText text).tokens)
    (same : moved first = moved second) : first = second := by
  have distinct : ((ofText text).tokens.map moved).Nodup := by
    rw [← becomes.tokens_eq]
    exact Scan.nodup_tokens _ _
  exact List.inj_on_of_nodup_map distinct isFirst isSecond same

theorem text_mapToken (pieces : List SpacedToken) :
    SpacedToken.text (pieces.map (SpacedToken.mapToken moved)) =
      SpacedToken.text (pieces.map (SpacedToken.mapToken
        (Token.renameAmong ((ofText text).document.namingTokens old) new))) := by
  simp [SpacedToken.text, SpacedToken.mapToken, List.flatMap_map,
    becomes.text_moved]

/-- The result is taken apart as the text is. -/
theorem isCutInto (isCut : IsCutInto text pieces closing)
    (isResult : replacedText pieces closing
      ((ofText text).document.namingTokens old) new = result) :
    IsCutInto result (pieces.map (SpacedToken.mapToken moved)) closing := by
  obtain ⟨others, otherClosing, isCutOther⟩ := exists_isCutInto becomes.clean
  have tokens : (pieces.map (SpacedToken.mapToken moved)).map
      SpacedToken.token = others.map SpacedToken.token := by
    rw [isCutOther.tokens_eq, becomes.tokens_eq, ← isCut.tokens_eq]
    simp [SpacedToken.mapToken]
  have blank : ∀ piece ∈ pieces.map (SpacedToken.mapToken moved),
      ∀ character ∈ piece.gap, IsGap character := by
    rw [List.forall_mem_map]
    exact isCut.apart.isGap
  have same : SpacedToken.text (pieces.map (SpacedToken.mapToken moved)) ++
      closing = SpacedToken.text others ++ otherClosing := by
    rw [isCutOther.text_eq, becomes.text_mapToken, ← isResult, replacedText,
      String.toList_ofList]
  obtain ⟨rfl, rfl⟩ :=
    SpacedToken.eq_of_text_eq tokens blank isCutOther.apart same
  exact isCutOther

/-- The old name in place of the new one is the text again. -/
theorem replacedText_eq (clean : (ofText text).hasSyntaxErrors = false)
    (fresh : (ofText text).document.namingTokens new = [])
    (isCut : IsCutInto text pieces closing) :
    replacedText (pieces.map (SpacedToken.mapToken moved)) closing
      ((ofText result).document.namingTokens new) old = text := by
  have again : ∀ token ∈ (ofText text).tokens,
      ((moved token).renameAmong ((ofText result).document.namingTokens new)
        old).text = token.text := by
    intro token isToken
    by_cases names : token ∈ (ofText text).document.namingTokens old
    · have namesNew : moved token ∈
          (ofText result).document.namingTokens new :=
        (becomes.mem_namingTokens clean fresh).mpr ⟨token, names, rfl⟩
      rw [Token.renameAmong_of_mem namesNew]
      exact (text_of_names clean names).symm
    · have notNew : moved token ∉
          (ofText result).document.namingTokens new := by
        intro namesNew
        obtain ⟨original, originalNames, same⟩ :=
          (becomes.mem_namingTokens clean fresh).mp namesNew
        have isOriginal := mem_tokens_of_names clean originalNames
        obtain rfl := becomes.eq_of_moved_eq isOriginal isToken same
        exact names originalNames
      rw [Token.renameAmong_of_notMem notNew, becomes.text_moved,
        Token.renameAmong_of_notMem names]
  have isText : SpacedToken.text ((pieces.map
        (SpacedToken.mapToken moved)).map (SpacedToken.mapToken
          (Token.renameAmong ((ofText result).document.namingTokens new)
            old))) =
      SpacedToken.text pieces := by
    simp only [SpacedToken.text, SpacedToken.mapToken, List.flatMap_map]
    apply List.flatMap_congr
    intro piece isPiece
    have isToken : piece.token ∈ (ofText text).tokens := by
      rw [← isCut.tokens_eq]
      exact List.mem_map_of_mem isPiece
    rw [again piece.token isToken]
  rw [replacedText, isText, isCut.text_eq, String.ofList_toList]

/-- Behind the opening quote of a renamed string the new name is found. -/
theorem targetAt?_moved (clean : (ofText text).hasSyntaxErrors = false)
    (fresh : (ofText text).document.namingTokens new = []) {token : Token}
    (names : token ∈ (ofText text).document.namingTokens old) :
    (ofText result).document.targetAt? ((moved token).span.start.right 1) =
      some ⟨new, (moved token).span⟩ := by
  have namesNew := (becomes.mem_namingTokens clean fresh).mpr
    ⟨token, names, rfl⟩
  have isToken := mem_tokens_of_names becomes.clean namesNew
  apply targetAt?_of_surrounds becomes.clean namesNew
  have units : Text.units (moved token).text.toList =
      1 + (Text.units new.toList + 1) := by
    rw [text_of_names becomes.clean namesNew, Text.toList_quoted,
      Text.units_cons, Text.units_append]
    rfl
  constructor
  · exact Position.not_right_le Nat.one_pos
  · rw [Scan.finish_of_mem isToken, units]
    simp only [Position.le_def, Position.right]
    omega

end Becomes

/-- The names of the actions are those of the text, with the new one in place of the
old one. -/
theorem RenamesAction.map_name
    (renamesAction : RenamesAction text old new result) :
    (ofText result).document.actions.map Action.name =
      (ofText text).document.actions.map fun action =>
        renamedTo old new action.name := by
  have names := congrArg
    (fun document : Document => document.actions.map Action.name)
    renamesAction.document
  simp only [Document.rename, Document.mapTokens, List.map_map] at names
  exact names

theorem RenamesAction.hasAction
    (renamesAction : RenamesAction text old new result)
    (declared : (ofText text).document.HasAction old) :
    (ofText result).document.HasAction new := by
  obtain ⟨action, isAction, rfl⟩ := declared
  have isNew : new ∈ (ofText result).document.actions.map Action.name := by
    rw [renamesAction.map_name]
    exact List.mem_map.mpr ⟨action, isAction, if_pos rfl⟩
  obtain ⟨other, isOther, named⟩ := List.mem_map.mp isNew
  exact ⟨other, isOther, named⟩

theorem Becomes.renamesAction (becomes : Becomes text result old new moved)
    (clean : (ofText text).hasSyntaxErrors = false) :
    RenamesAction text old new result := by
  apply renamesAction_of_tokens clean
    ((hasSyntaxErrors_eq_false_iff result).mp becomes.clean).1
  have tokens : (Scan.ofText result).tokens = (ofText text).tokens.map moved :=
    becomes.tokens_eq
  rw [tokens, List.map_map, List.map_map]
  exact List.map_congr_left fun token _ => becomes.unplaced_eq token

/-- The renaming back, from the new name in one of the renamed strings. -/
theorem Becomes.exists_undo (becomes : Becomes text result old new moved)
    (isCut : IsCutInto text pieces closing)
    (isResult : replacedText pieces closing
      ((ofText text).document.namingTokens old) new = result)
    (clean : (ofText text).hasSyntaxErrors = false)
    (fresh : (ofText text).document.namingTokens new = [])
    (declared : (ofText text).document.HasAction old)
    (valid : isActionName old = true) {token : Token}
    (names : token ∈ (ofText text).document.namingTokens old) :
    ∃ undo,
      (ofText result).rename? ((moved token).span.start.right 1) old =
          some undo ∧
        TextEdit.applyAll undo result = some text := by
  have isTarget := becomes.targetAt?_moved clean fresh names
  obtain ⟨action, counts, named⟩ :=
    ((becomes.renamesAction clean).hasAction declared).exists_counts
  have found := symbolAt?_eq_some.mpr ⟨_, isTarget,
    Document.symbol?_eq_some.mpr ⟨action, counts, named, rfl⟩⟩
  have renames := @isSome_rename? (ofText result)
    ((moved token).span.start.right 1) old valid
  rw [found, Option.isSome_some, Option.isSome_iff_exists] at renames
  obtain ⟨undo, renamed⟩ := renames
  obtain ⟨other, isOther, rfl⟩ := rename?_eq_some renamed
  obtain rfl := Option.some.inj (isTarget.symm.trans isOther)
  refine ⟨_, renamed, ?_⟩
  rw [(becomes.isCutInto isCut isResult).applyAll_renamingEdits becomes.clean,
    becomes.replacedText_eq clean fresh isCut]

/-- The new text of an edit begins behind the quote in front of it. -/
theorem IsCutInto.startIn?_renamingEdit
    (isCut : IsCutInto text pieces closing)
    (clean : (ofText text).hasSyntaxErrors = false) {before after :
      List SpacedToken} {piece : SpacedToken}
    (split : pieces = before ++ piece :: after)
    (names : piece.token ∈ (ofText text).document.namingTokens old) :
    TextEdit.startIn? text
        (((before.map SpacedToken.token).filter fun token =>
          decide (token ∈ (ofText text).document.namingTokens old)).map
            ((ofText text).renamingEdit new))
        ((ofText text).renamingEdit new piece.token) =
      some ((Text.endPosition (SpacedToken.text (before.map
        (SpacedToken.mapToken (Token.renameAmong
          ((ofText text).document.namingTokens old) new))) ++
            piece.gap)).right 1) := by
  have edits : ∀ token ∈ (ofText text).document.namingTokens old,
      TextEdit.Renames new token ((ofText text).renamingEdit new token) :=
    fun token names => renames_renamingEdit clean
      (mem_tokens_of_names clean names) (isString_of_names clean names) new
  have whole : SpacedToken.text before ++ piece.gap ++
      piece.token.text.toList ++ (SpacedToken.text after ++ closing) =
        text.toList := by
    rw [← isCut.text_eq, split]
    simp [SpacedToken.text]
  have stands := isCut.stands before piece after split
  obtain ⟨inner, characters, -, start, -⟩ :=
    (edits _ names).exists_offsets stands _ whole
  have isSplit : text.toList =
      SpacedToken.text before ++ piece.gap ++ ['"'] ++
        (inner ++ ['"'] ++ (SpacedToken.text after ++ closing)) := by
    rw [← whole, characters]
    simp
  have front : text.toList.take
      (SpacedToken.text before ++ piece.gap ++ ['"']).length =
        SpacedToken.text before ++ (piece.gap ++ ['"']) := by
    rw [isSplit, List.take_left, List.append_assoc]
  have beforeStands : ∀ front other back,
      before = front ++ other :: back →
        other.StandsBehind ([] ++ SpacedToken.text front) := by
    intro front other back isFront
    apply isCut.stands front other (back ++ piece :: after)
    rw [split, isFront, List.append_assoc, List.cons_append]
  have applied := @TextEdit.applyFrom_pieces
    ((ofText text).document.namingTokens old) new
    ((ofText text).renamingEdit new)
    (SpacedToken.text before ++ (piece.gap ++ ['"'])) (piece.gap ++ ['"'])
    before (fun other _ => edits other.token) [] 0 rfl beforeStands
    (Nat.le_refl 0)
  have quoteLine : ∀ character ∈ ['"'],
      Text.isLineBreak character = false := by
    simp [Text.isLineBreak]
  rw [TextEdit.startIn?, start, front, applied, Option.map_some,
    List.drop_nil, List.nil_append, ← List.append_assoc,
    Text.endPosition_append_right quoteLine]
  rfl

/-- The new name begins behind the opening quote of its token in the result. -/
theorem Becomes.startIn?_eq (becomes : Becomes text result old new moved)
    (isCut : IsCutInto text pieces closing)
    (isResult : replacedText pieces closing
      ((ofText text).document.namingTokens old) new = result)
    (clean : (ofText text).hasSyntaxErrors = false)
    {front back : List TextEdit} {edit : TextEdit}
    (split : TextEdit.inOrder (((ofText text).document.namingTokens old).map
      ((ofText text).renamingEdit new)) = front ++ edit :: back) :
    ∃ token ∈ (ofText text).document.namingTokens old,
      TextEdit.startIn? text front edit =
        some ((moved token).span.start.right 1) := by
  rw [TextEdit.inOrder, mergeSort_renamingEdits clean] at split
  obtain ⟨early, late, tokens, rfl, lateEdits⟩ :=
    List.map_eq_append_iff.mp split
  obtain ⟨token, others, rfl, rfl, -⟩ := List.map_eq_cons_iff.mp lateEdits
  have isChosen : token ∈ (ofText text).tokens.filter fun token =>
      decide (token ∈ (ofText text).document.namingTokens old) := by
    rw [tokens]
    simp
  have names := of_decide_eq_true (List.mem_filter.mp isChosen).2
  rw [← isCut.tokens_eq] at tokens
  obtain ⟨before, piece, after, rfl, rfl, rfl⟩ :=
    SpacedToken.exists_split_of_filter tokens
  have stands := (becomes.isCutInto isCut isResult).stands
    (before.map (SpacedToken.mapToken moved)) (piece.mapToken moved)
    (after.map (SpacedToken.mapToken moved)) (by simp)
  have start := stands.start_eq
  rw [becomes.text_mapToken] at start
  refine ⟨piece.token, names, ?_⟩
  rw [isCut.startIn?_renamingEdit clean rfl names]
  exact congrArg (fun place : Position => some (place.right 1)) start.symm

/-- The action at a position can be renamed, and renaming it back where the new name
begins in any of the renamed strings gives the text again. -/
def IsUndone (text : String) (position : Position) (old new : String) : Prop :=
  ∃ edits result,
    (ofText text).rename? position new = some edits ∧
      TextEdit.applyAll edits text = some result ∧
        ∀ front edit back, TextEdit.inOrder edits = front ++ edit :: back →
          ∃ start, TextEdit.startIn? text front edit = some start ∧
            ∃ undo, (ofText result).rename? start old = some undo ∧
              TextEdit.applyAll undo result = some text

/-- Renaming to a name that nothing has can be undone. -/
theorem rename_undone (clean : (ofText text).hasSyntaxErrors = false)
    {position : Position} {symbol : ActionSymbol}
    (found : (ofText text).symbolAt? position = some symbol)
    (valid : isActionName symbol.name = true)
    (nonempty : new ≠ "") (plain : IsPlainName new)
    (freshName : ∀ action ∈ (ofText text).document.actions,
      action.name ≠ new)
    (freshEntries : ∀ entry ∈ (ofText text).document.references,
      entry.value ≠ new) :
    IsUndone text position symbol.name new := by
  obtain ⟨target, isTarget, isSymbol⟩ := symbolAt?_eq_some.mp found
  obtain ⟨action, counts, named, rfl⟩ := Document.symbol?_eq_some.mp isSymbol
  have fresh : (ofText text).document.namingTokens new = [] := by
    refine List.eq_nil_iff_forall_not_mem.mpr fun token names => ?_
    rcases Document.mem_namingTokens_iff.mp names with
      ⟨entry, isEntry, isNew, -⟩ | ⟨other, isOther, isNew, -⟩
    · exact freshEntries entry isEntry isNew
    · exact freshName other isOther isNew
  have renames : ((ofText text).rename? position new).isSome = true := by
    rw [isSome_rename? (isActionName_of_isPlainName nonempty plain), found]
    rfl
  obtain ⟨edits, renamed⟩ := Option.isSome_iff_exists.mp renames
  obtain ⟨other, isOther, rfl⟩ := rename?_eq_some renamed
  obtain rfl := Option.some.inj (isTarget.symm.trans isOther)
  obtain ⟨pieces, closing, isCut⟩ := exists_isCutInto clean
  obtain ⟨moved, becomes⟩ := isCut.exists_becomes clean target.name plain
  refine ⟨_, _, renamed, isCut.applyAll_renamingEdits clean _ _, ?_⟩
  intro front edit back split
  obtain ⟨token, names, start⟩ :=
    becomes.startIn?_eq isCut rfl clean split
  have declared : (ofText text).document.HasAction target.name :=
    named ▸ counts.hasAction
  exact ⟨_, start,
    becomes.exists_undo isCut rfl clean fresh declared valid names⟩

/-- An action that is declared and referred to on one line. -/
def oneLine : String :=
  "workflow \"w\" \x7bon=\"push\" resolves=[\"a\", \"a\"]\x7d " ++
    "action \"a\" \x7buses=\"./x\" needs=\"a\"\x7d"

theorem rename_undone_oneLine :
    (ofText oneLine).hasSyntaxErrors = false ∧ isActionName "a" = true ∧
      IsPlainName "😀 b" ∧
        (∀ action ∈ (ofText oneLine).document.actions,
          action.name ≠ "😀 b") ∧
          (∀ entry ∈ (ofText oneLine).document.references,
            entry.value ≠ "😀 b") ∧
            ∃ symbol, (ofText oneLine).symbolAt? ⟨0, 53⟩ = some symbol ∧
              IsUndone oneLine ⟨0, 53⟩ symbol.name "😀 b" := by
  have clean : (ofText oneLine).hasSyntaxErrors = false :=
    (hasSyntaxErrors_eq_false_iff oneLine).mpr
      ⟨by decide +kernel, by decide +kernel⟩
  have plain : IsPlainName "😀 b" := by
    simp [IsPlainName, isControl]
  have blocks : (ofText oneLine).document.blocks =
      (ofText oneLine).tree.blocks.map DocumentBlock.ofBlock :=
    (isOrdered clean).blocks_ofTree
  have found : (ofText oneLine).symbolAt? ⟨0, 53⟩ =
      some ⟨"a", ⟨⟨0, 52⟩, ⟨0, 55⟩⟩,
        [⟨⟨0, 34⟩, ⟨0, 37⟩⟩, ⟨⟨0, 39⟩, ⟨0, 42⟩⟩, ⟨⟨0, 74⟩, ⟨0, 77⟩⟩]⟩ := by
    simp only [symbolAt?, Document.targetAt?, Document.symbol?,
      Document.referencesTo, Document.references, blocks]
    decide +kernel
  have freshName : ∀ action ∈ (ofText oneLine).document.actions,
      action.name ≠ "😀 b" := by
    decide +kernel
  have freshEntries : ∀ entry ∈ (ofText oneLine).document.references,
      entry.value ≠ "😀 b" := by
    rw [Document.references, blocks]
    decide +kernel
  have valid : isActionName "a" = true := by decide
  exact ⟨clean, valid, plain, freshName, freshEntries, _, found,
    rename_undone clean found valid (by decide) plain freshName freshEntries⟩

end Compilation
end WorkflowLang
