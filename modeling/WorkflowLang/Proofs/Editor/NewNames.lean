import Mathlib
import WorkflowLang.Proofs.Editor.Renaming

/-!
# New names with control characters

A new name may hold any character but quotes, backslashes and line breaks, while
a string must hold no control character either.  So renaming puts strings in
place of strings in any case, but the text it makes has syntax errors as soon as
the new name holds a control character (`Compilation.rename_stays_clean_iff`).
-/

namespace WorkflowLang

/-- A name that stands on one line between its quotes. -/
def IsInlineName (name : String) : Prop :=
  ∀ character ∈ name.toList, character ≠ '"' ∧ character ≠ '\\' ∧
    Text.isLineBreak character = false

/-- A name without control characters. -/
def IsPrintableName (name : String) : Prop :=
  ∀ character ∈ name.toList, isControl character = false

theorem IsInlineName.of_isActionName {name : String}
    (accepted : isActionName name = true) : IsInlineName name := by
  simp only [isActionName, Bool.and_eq_true, Bool.not_eq_true',
    List.any_eq_false] at accepted
  intro character member
  have allowed := accepted.2 character member
  simp only [List.contains_cons, List.contains_nil, Bool.or_false,
    Bool.or_eq_true, beq_iff_eq, not_or] at allowed
  obtain ⟨notQuote, notBackslash, notReturn, notFeed⟩ := allowed
  exact ⟨notQuote, notBackslash, by simp [Text.isLineBreak, notReturn, notFeed]⟩

theorem IsInlineName.isPlainName {name : String} (inline : IsInlineName name)
    (printable : IsPrintableName name) : IsPlainName name := by
  intro character member
  obtain ⟨notQuote, notBackslash, -⟩ := inline character member
  exact ⟨notQuote, notBackslash, printable character member⟩

namespace StringBody

theorem read_of_inline {character : Char} (notQuote : character ≠ '"')
    (notBackslash : character ≠ '\\')
    (notBreak : Text.isLineBreak character = false) (position : Position)
    (rest : List Char) :
    read position (character :: rest) =
      let body := read (position.right (Text.unitWidth character)) rest
      ⟨character :: body.characters, body.rest,
        controlDiagnostics position character ++ body.diagnostics,
        body.isClosed⟩ := by
  rw [read]
  · simp [notBreak]
  · exact notQuote
  · intro escaped others isBackslash
    exact absurd isBackslash notBackslash

/-- A name that is read without a report holds no control character. -/
theorem printable_of_read_name {characters : List Char}
    (inline : ∀ character ∈ characters, character ≠ '"' ∧
      character ≠ '\\' ∧ Text.isLineBreak character = false)
    {position : Position} {rest : List Char}
    (quiet : (read position (characters ++ '"' :: rest)).diagnostics = []) :
    ∀ character ∈ characters, isControl character = false := by
  induction characters generalizing position with
  | nil => simp
  | cons first others inductionHypothesis =>
      obtain ⟨notQuote, notBackslash, notBreak⟩ :=
        inline first List.mem_cons_self
      rw [List.cons_append, read_of_inline notQuote notBackslash notBreak,
        List.append_eq_nil_iff] at quiet
      obtain ⟨firstQuiet, othersQuiet⟩ := quiet
      have firstPrintable : isControl first = false := by
        by_contra control
        simp [controlDiagnostics, control] at firstQuiet
      have othersPrintable := inductionHypothesis
        (fun other member => inline other (List.mem_cons_of_mem _ member))
        othersQuiet
      exact List.forall_mem_cons.mpr ⟨firstPrintable, othersPrintable⟩

end StringBody

namespace SpacedToken

variable {pieces front back : List SpacedToken} {rest other : List Char}

/-- What tokens stand in front of matters by its first character only. -/
theorem Apart.congr (apart : Apart rest pieces)
    (same : other.head? = rest.head?) : Apart other pieces := by
  induction pieces with
  | nil => trivial
  | cons piece others inductionHypothesis =>
      obtain ⟨blank, isCut, behind⟩ := apart
      refine ⟨blank, isCut.congr ?_, inductionHypothesis behind⟩
      rw [List.head?_append, List.head?_append, same]

theorem Apart.of_append (apart : Apart rest (front ++ back)) :
    Apart (text back ++ rest) front ∧ Apart rest back := by
  induction front with
  | nil => exact ⟨trivial, apart⟩
  | cons piece others inductionHypothesis =>
      obtain ⟨blank, isCut, behind⟩ := apart
      obtain ⟨othersApart, backApart⟩ := inductionHypothesis behind
      refine ⟨⟨blank, ?_, othersApart⟩, backApart⟩
      simpa [text] using isCut

/-- In front of the first token that is renamed all tokens stay. -/
theorem exists_first_renamed {naming : List Token} {named : Token}
    (isToken : named ∈ pieces.map SpacedToken.token)
    (isNamed : named ∈ naming) (name : String) :
    ∃ front piece back, pieces = front ++ piece :: back ∧
      piece.token ∈ naming ∧
      front.map (mapToken (Token.renameAmong naming name)) = front := by
  obtain ⟨first, found⟩ : ∃ first, (pieces.find? fun piece =>
      decide (piece.token ∈ naming)) = some first := by
    obtain ⟨piece, isPiece, rfl⟩ := List.mem_map.mp isToken
    rw [← Option.isSome_iff_exists, List.find?_isSome]
    exact ⟨piece, isPiece, decide_eq_true isNamed⟩
  obtain ⟨chosen, front, back, split, passed⟩ :=
    List.find?_eq_some_iff_append.mp found
  refine ⟨front, first, back, split, of_decide_eq_true chosen, ?_⟩
  refine mapPieces_eq_self fun other member => ?_
  have notNamed : other.token ∉ naming := by
    simpa using passed other member
  rw [mapToken, Token.renameAmong_of_notMem notNamed]

end SpacedToken

namespace Scan

/-- A quoted name that is scanned without a report holds no control character. -/
theorem printable_of_scanFrom_quoted {name : String}
    (inline : IsInlineName name) {position : Position} {rest : List Char}
    (quiet : (scanFrom position
      ((Text.quoted name).toList ++ rest)).diagnostics = []) :
    IsPrintableName name := by
  have begins : BeginsToken '"' := by
    constructor <;> decide
  rw [Text.toList_quoted, List.cons_append, scanFrom_of_begins begins,
    Lexeme.cut_of_quote, List.append_eq_nil_iff] at quiet
  have body := (List.append_eq_nil_iff.mp quiet.1).1
  rw [List.append_assoc, List.singleton_append] at body
  exact StringBody.printable_of_read_name inline body

end Scan

namespace Compilation

variable {text : String}

/-- When a text with a new name in place of some strings is scanned without a
report, the name holds no control character. -/
theorem IsCutInto.printable_of_scan {pieces : List SpacedToken}
    {closing : List Char} (isCut : IsCutInto text pieces closing)
    {naming : List Token} {named : Token}
    (isToken : named ∈ (ofText text).tokens) (isNamed : named ∈ naming)
    (strings : ∀ token ∈ naming, token.kind = .string) {newName : String}
    (inline : IsInlineName newName)
    (quiet : (Scan.ofText
      (replacedText pieces closing naming newName)).diagnostics = []) :
    IsPrintableName newName := by
  -- In front of the first string that is replaced the text is as it was.
  rw [← isCut.tokens_eq] at isToken
  obtain ⟨front, first, back, rfl, firstNamed, frontKept⟩ :=
    SpacedToken.exists_first_renamed isToken isNamed newName
  obtain ⟨frontApart, blank, firstCut, -⟩ := isCut.apart.of_append
  obtain ⟨inner, characters⟩ :=
    firstCut.exists_inner (strings first.token firstNamed)
  obtain ⟨behind, split⟩ : ∃ behind,
      (replacedText (front ++ first :: back) closing naming newName).toList =
        SpacedToken.text front ++
          (first.gap ++ ((Text.quoted newName).toList ++ behind)) := by
    refine ⟨SpacedToken.text (back.map (SpacedToken.mapToken
      (Token.renameAmong naming newName))) ++ closing, ?_⟩
    rw [replacedText, String.toList_ofList, List.map_append, frontKept]
    simp [SpacedToken.mapToken, SpacedToken.text,
      Token.renameAmong_of_mem firstNamed]
  have sameHead : (first.gap ++
      ((Text.quoted newName).toList ++ behind)).head? =
        (SpacedToken.text (first :: back) ++ closing).head? := by
    simp [characters, List.head?_append]
  rw [Scan.ofText, split, (frontApart.congr sameHead).scanFrom_text,
    Scan.behind, Scan.scanFrom_gap blank (by simp)] at quiet
  exact Scan.printable_of_scanFrom_quoted inline quiet

theorem isActionName_of_rename? {compilation : Compilation}
    {position : Position} {newName : String} {edits : List TextEdit}
    (renames : compilation.rename? position newName = some edits) :
    isActionName newName = true := by
  unfold rename? at renames
  split at renames
  · assumption
  · contradiction

/-- Only names of declared actions are replaced. -/
theorem exists_named_of_rename? {compilation : Compilation}
    {position : Position} {newName : String} {edits : List TextEdit}
    (renames : compilation.rename? position newName = some edits)
    {target : ActionTarget}
    (found : compilation.document.targetAt? position = some target) :
    ∃ token, token ∈ compilation.document.namingTokens target.name := by
  rw [rename?, if_pos (isActionName_of_rename? renames), symbolAt?, found,
    Option.bind_some, Document.symbol?, Document.definition?] at renames
  cases declared : compilation.document.actions.find?
      fun action => action.name == target.name with
  | none => simp [declared] at renames
  | some action =>
      have named := List.find?_some declared
      have isAction := List.mem_of_find?_eq_some declared
      refine ⟨action.block.name, List.mem_append_right _ ?_⟩
      exact List.mem_map_of_mem (List.mem_filter.mpr ⟨isAction, named⟩)

/-- A text in which an action is renamed has no syntax errors, exactly when the
new name has no control characters. -/
theorem rename_stays_clean_iff (clean : (ofText text).hasSyntaxErrors = false)
    {position : Position} {newName : String} {edits : List TextEdit}
    (renames : (ofText text).rename? position newName = some edits) :
    ∃ result, TextEdit.applyAll edits text = some result ∧
      ((ofText result).hasSyntaxErrors = false ↔
        IsPrintableName newName) := by
  have inline := IsInlineName.of_isActionName (isActionName_of_rename? renames)
  obtain ⟨target, found, rfl⟩ := rename?_eq_some renames
  obtain ⟨named, isNamed⟩ := exists_named_of_rename? renames found
  obtain ⟨pieces, closing, isCut⟩ := exists_isCutInto clean
  have strings : ∀ token ∈ (ofText text).document.namingTokens target.name,
      token.kind = .string :=
    fun token names => isString_of_names clean names
  refine ⟨_, isCut.applyAll_renamingEdits clean target.name newName, ?_⟩
  constructor
  · intro resultClean
    have quiet := ((hasSyntaxErrors_eq_false_iff _).mp resultClean).1
    exact isCut.printable_of_scan (mem_tokens_of_names clean isNamed) isNamed
      strings inline quiet
  · intro printable
    obtain ⟨scanned, tokens⟩ :=
      isCut.scan_replacedText strings (inline.isPlainName printable)
    exact (renamesAction_of_tokens clean scanned tokens).clean

/-- An action that depends on itself and on another one. -/
def selfDependency : String :=
  "action \"a\" \x7b uses = \"./a\" needs = [\"a\", \"b\"] \x7d"

theorem rename_stays_clean_selfDependency :
    (ofText selfDependency).hasSyntaxErrors = false ∧
      ∃ edits,
        (ofText selfDependency).rename? ⟨0, 8⟩ "é b" = some edits ∧
          ∃ result, TextEdit.applyAll edits selfDependency = some result ∧
            ((ofText result).hasSyntaxErrors = false ↔
              IsPrintableName "é b") := by
  have clean : (ofText selfDependency).hasSyntaxErrors = false := by
    cbv
  have renames : (ofText selfDependency).rename? ⟨0, 8⟩ "é b" =
      some [⟨⟨⟨0, 36⟩, ⟨0, 37⟩⟩, "é b"⟩, ⟨⟨⟨0, 8⟩, ⟨0, 9⟩⟩, "é b"⟩] := by
    cbv
  exact ⟨clean, _, renames, rename_stays_clean_iff clean renames⟩

/-- A tab is accepted in a new name and not in a string. -/
theorem rename_puts_tab :
    ∃ edits result, (ofText selfDependency).hasSyntaxErrors = false ∧
      (ofText selfDependency).rename? ⟨0, 8⟩ "\t" = some edits ∧
        TextEdit.applyAll edits selfDependency = some result ∧
          (ofText result).hasSyntaxErrors = true := by
  refine ⟨[⟨⟨⟨0, 36⟩, ⟨0, 37⟩⟩, "\t"⟩, ⟨⟨⟨0, 8⟩, ⟨0, 9⟩⟩, "\t"⟩],
    "action \"\t\" \x7b uses = \"./a\" needs = [\"\t\", \"b\"] \x7d",
    ?_, ?_, ?_, ?_⟩
  · cbv
  · cbv
  · cbv
  · cbv

end Compilation

end WorkflowLang
