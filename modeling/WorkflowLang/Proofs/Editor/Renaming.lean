import WorkflowLang.Proofs.Document.Renaming
import WorkflowLang.Proofs.Editor.Edits
import WorkflowLang.Proofs.Layout.Lossless
import WorkflowLang.Proofs.Tree.Accounting

/-!
# Renaming an action in a text

The edits of a renaming stand between the quotes of the strings that name the
action.  Applied to the text they put other strings in place of these.  The new
text is scanned and parsed as the old one, and its document is the old one with
the action renamed (`Compilation.rename_exact`).
-/

namespace WorkflowLang

namespace Scan

/-- No two tokens start at one place. -/
theorem eq_of_start_eq {position : Position} {text : List Char}
    {first second : Token}
    (isFirst : first ∈ (scanFrom position text).tokens)
    (isSecond : second ∈ (scanFrom position text).tokens)
    (same : first.span.start = second.span.start) : first = second := by
  by_contra distinct
  have symmetric : Std.Symm fun first second : Token =>
      first.span.start ≠ second.span.start :=
    ⟨fun _ _ differ => differ.symm⟩
  have apart : (scanFrom position text).tokens.Pairwise fun first second =>
      first.span.start ≠ second.span.start := by
    refine (pairwise_start position text).imp fun follows starts => ?_
    rw [starts] at follows
    exact follows (Position.le_refl _)
  exact apart.forall isFirst isSecond distinct same

theorem eq_of_span_eq {position : Position} {text : List Char}
    {first second : Token}
    (isFirst : first ∈ (scanFrom position text).tokens)
    (isSecond : second ∈ (scanFrom position text).tokens)
    (same : first.span = second.span) : first = second :=
  eq_of_start_eq isFirst isSecond (congrArg Span.start same)

theorem nodup_tokens (position : Position) (text : List Char) :
    (scanFrom position text).tokens.Nodup :=
  (Token.nodup_spans (pairwise_start position text)).of_map _

end Scan

namespace Token

theorem renameAmong_again (naming : List Token) (name : String)
    (token : Token) :
    (token.renameAmong naming name).renameAmong naming name =
      token.renameAmong naming name := by
  by_cases member : token ∈ naming
  · rw [renameAmong_of_mem member]
    unfold renameAmong
    split <;> rfl
  · rw [renameAmong_of_notMem member, renameAmong_of_notMem member]

theorem showsKinds_renameAmong (naming : List Token) (name : String) :
    ShowsKinds (renameAmong naming name) where
  kind_view := kind_renameAmong naming name
  missing_view := by
    intro first second same
    have span := congrArg Token.span same
    rw [span_renameAmong, span_renameAmong] at span
    rw [span]

end Token

theorem SyntaxTree.IsOrdered.renameAmong {tree : SyntaxTree}
    (ordered : tree.IsOrdered) (naming : List Token) (name : String) :
    (tree.mapTokens (Token.renameAmong naming name)).IsOrdered := by
  rw [IsOrdered, tokens_mapTokens, List.pairwise_map]
  simp only [Token.span_renameAmong]
  exact ordered

namespace Compilation

variable {text : String}

/-- The edit that renames the action a token names. -/
def renamingEdit (compilation : Compilation) (newName : String)
    (token : Token) : TextEdit :=
  ⟨compilation.innerSpan token.span, newName⟩

/-- Renaming edits the strings that name the action at a position. -/
theorem rename?_eq_some {compilation : Compilation} {position : Position}
    {newName : String} {edits : List TextEdit}
    (renames : compilation.rename? position newName = some edits) :
    ∃ target, compilation.document.targetAt? position = some target ∧
      edits = (compilation.document.namingTokens target.name).map
        (compilation.renamingEdit newName) := by
  unfold rename? symbolAt? at renames
  split at renames
  · cases found : compilation.document.targetAt? position with
    | none => simp [found] at renames
    | some target =>
        refine ⟨target, rfl, ?_⟩
        simp only [found, Option.bind_some, Document.symbol?] at renames
        cases defined : compilation.document.definition? target.name with
        | none => simp [defined] at renames
        | some definition =>
            simp only [defined, Option.map_some, Option.some.injEq] at renames
            rw [← renames, Document.namingTokens, Document.referencesTo,
              declarations]
            simp only [List.map_append, List.map_map]
            rfl
  · contradiction

/-- A token that names an action stands in the text, unless it is a stand-in. -/
theorem mem_tokens_of_present {name : String} {token : Token}
    (names : token ∈ (ofText text).document.namingTokens name)
    (present : token.isMissing = false) :
    token ∈ (ofText text).tokens :=
  Parse.mem_of_present (SyntaxTree.namingTokens_subset names) present

/-- An action is named by strings and by stand-ins for them. -/
theorem isString_of_present {name : String} {token : Token}
    (names : token ∈ (ofText text).document.namingTokens name)
    (present : token.isMissing = false) : token.kind = .string := by
  have stringOrMissing : token.IsStringOrMissing := by
    obtain ⟨block, isBlock, declares | refers⟩ :=
      SyntaxTree.mem_namingTokens.mp names
    · obtain ⟨-, rfl, -⟩ := Block.mem_declaringTokens.mp declares
      exact (Parse.isTyped _ block isBlock).name
    · obtain ⟨-, property, found, isEntry⟩ :=
        Block.mem_referringTokens refers
      exact (Parse.isTyped _ block isBlock).entries property
        (Block.property?_eq_some found).1 token isEntry
  refine stringOrMissing.resolve_right ?_
  rw [present]
  exact Bool.false_ne_true

/-- Without syntax errors there are no stand-ins. -/
theorem isMissing_eq_false_of_names
    (clean : (ofText text).hasSyntaxErrors = false) {name : String}
    {token : Token}
    (names : token ∈ (ofText text).document.namingTokens name) :
    token.isMissing = false :=
  Parse.isMissing_eq_false_of_diagnostics_eq_nil
    ((hasSyntaxErrors_eq_false_iff text).mp clean).2
    (SyntaxTree.namingTokens_subset names)

theorem mem_tokens_of_names (clean : (ofText text).hasSyntaxErrors = false)
    {name : String} {token : Token}
    (names : token ∈ (ofText text).document.namingTokens name) :
    token ∈ (ofText text).tokens :=
  mem_tokens_of_present names (isMissing_eq_false_of_names clean names)

theorem isString_of_names (clean : (ofText text).hasSyntaxErrors = false)
    {name : String} {token : Token}
    (names : token ∈ (ofText text).document.namingTokens name) :
    token.kind = .string :=
  isString_of_present names (isMissing_eq_false_of_names clean names)

theorem find?_span {token : Token} (member : token ∈ (ofText text).tokens) :
    ((ofText text).tokens.find? fun other => other.span == token.span) =
      some token := by
  cases found : (ofText text).tokens.find? fun other =>
      other.span == token.span with
  | none =>
      have differ := List.find?_eq_none.mp found token member
      simp at differ
  | some other =>
      have isOther := List.mem_of_find?_eq_some found
      have same := List.find?_some found
      rw [Scan.eq_of_span_eq isOther member (beq_iff_eq.mp same)]

theorem endsInQuote_span {token : Token}
    (member : token ∈ (ofText text).tokens) :
    (ofText text).endsInQuote token.span = true ↔
      1 < token.text.toList.length ∧
        token.text.toList.getLast? = some '"' := by
  rw [endsInQuote, find?_span member]
  simp

/-- The edit of a string with both quotes stands between them. -/
theorem renames_of_quotes {token : Token}
    (member : token ∈ (ofText text).tokens) {inner : List Char}
    (characters : token.text.toList = '"' :: (inner ++ ['"']))
    (newName : String) :
    TextEdit.Renames newName token
      ((ofText text).renamingEdit newName token) := by
  have ends : (ofText text).endsInQuote token.span = true := by
    rw [endsInQuote_span member, characters]
    constructor
    · simp
    · rw [← List.cons_append, List.getLast?_concat]
  have units : Text.units token.text.toList = 1 + Text.units inner + 1 := by
    rw [characters, Text.units_cons, Text.units_append, Nat.add_assoc]
    rfl
  have finish := Scan.finish_of_mem member
  refine ⟨inner, characters, ?_⟩
  rw [renamingEdit, innerSpan, if_pos ends, finish, units]
  simp only [Position.right, TextEdit.mk.injEq, Span.mk.injEq,
    Position.mk.injEq, true_and, and_true]
  omega

/-- The edit of a string stands between its quotes. -/
theorem renames_renamingEdit (clean : (ofText text).hasSyntaxErrors = false)
    {token : Token} (member : token ∈ (ofText text).tokens)
    (isString : token.kind = .string) (newName : String) :
    TextEdit.Renames newName token
      ((ofText text).renamingEdit newName token) := by
  have isCut := (isRecut clean token member).isCutBefore
    (show token.kind.EndsBefore [] by simp [TokenKind.EndsBefore])
  obtain ⟨inner, characters⟩ := isCut.exists_inner isString
  exact renames_of_quotes member characters newName

/-- The edits of a renaming in the order of the text. -/
theorem mergeSort_renamingEdits
    (clean : (ofText text).hasSyntaxErrors = false) (name newName : String) :
    (((ofText text).document.namingTokens name).map
        ((ofText text).renamingEdit newName)).mergeSort
          (fun first second => decide (first.span.start ≤ second.span.start)) =
      ((ofText text).tokens.filter fun token =>
        decide (token ∈ (ofText text).document.namingTokens name)).map
          ((ofText text).renamingEdit newName) := by
  refine mergeSort_eq_of_perm (fun edit : TextEdit => edit.span.start)
    (List.Perm.map _ ?_) ?_
  · have namesDistinct : ((ofText text).document.namingTokens name).Nodup :=
      (isOrdered clean).nodup_namingTokens name
    have distinct : (ofText text).tokens.Nodup := Scan.nodup_tokens _ _
    rw [List.perm_ext_iff_of_nodup namesDistinct (distinct.filter _)]
    intro token
    rw [List.mem_filter, decide_eq_true_eq]
    constructor
    · intro names
      exact ⟨mem_tokens_of_names clean names, names⟩
    · exact And.right
  · rw [List.pairwise_map]
    apply List.Pairwise.filter
    apply (Scan.pairwise_start _ _).imp
    intro first second later
    simp only [renamingEdit, innerSpan, Position.le_def, Position.right]
      at later ⊢
    omega

/-- A text without syntax errors as tokens that are cut apart. -/
structure IsCutInto (text : String) (pieces : List SpacedToken)
    (closing : List Char) : Prop where
  tokens_eq : pieces.map SpacedToken.token = (ofText text).tokens
  text_eq : SpacedToken.text pieces ++ closing = text.toList
  blank : ∀ character ∈ closing, IsGap character
  apart : SpacedToken.Apart closing pieces
  stands : ∀ front piece back, pieces = front ++ piece :: back →
    piece.StandsBehind (SpacedToken.text front)

theorem exists_isCutInto (clean : (ofText text).hasSyntaxErrors = false) :
    ∃ pieces closing, IsCutInto text pieces closing := by
  have faultless := ((hasSyntaxErrors_eq_false_iff text).mp clean).1
  obtain ⟨pieces, tokens, cuts⟩ := Scan.exists_cuts_ofText text
  obtain ⟨closing, blank, whole⟩ := cuts.exists_closing
  have apart := cuts.apart faultless whole
  refine ⟨pieces, closing, tokens, whole, blank, apart, ?_⟩
  intro front piece back split
  exact cuts.standsBehind split

/-- The text of some tokens with a name in place of some of them. -/
def replacedText (pieces : List SpacedToken) (closing : List Char)
    (naming : List Token) (newName : String) : String :=
  String.ofList (SpacedToken.text (pieces.map
    (SpacedToken.mapToken (Token.renameAmong naming newName))) ++ closing)

namespace IsCutInto

variable {pieces : List SpacedToken} {closing : List Char}

/-- The edits of a renaming replace the strings that name the action. -/
theorem applyAll_renamingEdits (isCut : IsCutInto text pieces closing)
    (clean : (ofText text).hasSyntaxErrors = false) (name newName : String) :
    TextEdit.applyAll
        (((ofText text).document.namingTokens name).map
          ((ofText text).renamingEdit newName)) text =
      some (replacedText pieces closing
        ((ofText text).document.namingTokens name) newName) := by
  have renames : ∀ piece ∈ pieces,
      piece.token ∈ (ofText text).document.namingTokens name →
        TextEdit.Renames newName piece.token
          ((ofText text).renamingEdit newName piece.token) := by
    intro piece _ names
    exact renames_renamingEdit clean (mem_tokens_of_names clean names)
      (isString_of_names clean names) newName
  have applied := @TextEdit.applyFrom_pieces
    ((ofText text).document.namingTokens name) newName
    ((ofText text).renamingEdit newName) text.toList closing pieces renames
    [] 0 isCut.text_eq isCut.stands (Nat.le_refl 0)
  rw [TextEdit.applyAll, mergeSort_renamingEdits clean, ← isCut.tokens_eq,
    applied]
  rfl

/-- Scanning the replaced text finds the tokens with the name in place of some of
them. -/
theorem scan_replacedText (isCut : IsCutInto text pieces closing)
    {naming : List Token} {newName : String}
    (strings : ∀ token ∈ naming, token.kind = .string)
    (plain : IsPlainName newName) :
    (Scan.ofText (replacedText pieces closing naming newName)).diagnostics =
        [] ∧
      (Scan.ofText (replacedText pieces closing naming
          newName)).tokens.map Token.unplaced =
        ((ofText text).tokens.map
          (Token.renameAmong naming newName)).map Token.unplaced := by
  have replaced := isCut.apart.replaceTokens
    (Token.replacesStrings_renameAmong strings plain _)
  have scanned := replaced.scanFrom_closing isCut.blank Position.origin
  rw [Scan.ofText, replacedText, String.toList_ofList, scanned]
  constructor
  · rfl
  · rw [SpacedToken.map_unplaced_placed, ← isCut.tokens_eq]
    simp [SpacedToken.mapToken]

end IsCutInto

/-- A text without syntax errors that means the document of another one with an
action renamed, up to places and with the blocks in the same order. -/
structure RenamesAction (text old new result : String) : Prop where
  clean : (ofText result).hasSyntaxErrors = false
  document : (ofText result).document.mapTokens Token.unplaced =
    ((ofText text).document.rename old new).mapTokens Token.unplaced
  blocks : (ofText result).document.blocks.map
      (DocumentBlock.mapTokens Token.unplaced) =
    ((ofText text).document.rename old new).blocks.map
      (DocumentBlock.mapTokens Token.unplaced)

/-- What is scanned to the tokens of a text with the name of an action replaced
is that text with the action renamed. -/
theorem renamesAction_of_tokens
    (clean : (ofText text).hasSyntaxErrors = false)
    {old new result : String}
    (scanned : (Scan.ofText result).diagnostics = [])
    (tokens : (Scan.ofText result).tokens.map Token.unplaced =
      ((ofText text).tokens.map (Token.renameAmong
        ((ofText text).document.namingTokens old) new)).map
          Token.unplaced) :
    RenamesAction text old new result := by
  have quiet : (Parse.ofTokens (ofText text).tokens).diagnostics = [] :=
    ((hasSyntaxErrors_eq_false_iff text).mp clean).2
  obtain ⟨noProblems, renamedTree⟩ := Parse.ofTokens_map
    (Token.showsKinds_renameAmong
      ((ofText text).document.namingTokens old) new)
    (Token.renameAmong_again _ _) quiet
  have ahead : (Parse.grammatical (Scan.ofText result).tokens).map
        Token.unplaced =
      (Parse.grammatical ((ofText text).tokens.map (Token.renameAmong
        ((ofText text).document.namingTokens old) new))).map
          Token.unplaced := by
    rw [← Parse.grammatical_map Token.kind_unplaced, tokens,
      Parse.grammatical_map Token.kind_unplaced]
  obtain ⟨relocated, problems⟩ := Parse.relocated ahead
  rw [noProblems, List.map_nil, List.map_eq_nil_iff] at problems
  have resultClean : (ofText result).hasSyntaxErrors = false :=
    (hasSyntaxErrors_eq_false_iff result).mpr ⟨scanned, problems⟩
  have ordered := isOrdered clean
  have trees : (ofText result).tree.mapTokens Token.unplaced =
      ((ofText text).tree.mapTokens (Token.renameAmong
        ((ofText text).document.namingTokens old) new)).mapTokens
          Token.unplaced := by
    rw [renamedTree] at relocated
    exact relocated
  have renamed : Document.ofTree ((ofText text).tree.mapTokens
      (Token.renameAmong ((ofText text).document.namingTokens old) new)) =
        (ofText text).document.rename old new :=
    ordered.ofTree_rename old new
  obtain ⟨documents, blocks⟩ := Document.relocated trees
    (isOrdered resultClean) (ordered.renameAmong _ _)
  rw [renamed] at documents blocks
  exact ⟨resultClean, documents, blocks⟩

/-- Renaming an action changes its name wherever the text declares it or refers
to it, and nothing else. -/
theorem rename_exact (clean : (ofText text).hasSyntaxErrors = false)
    {position : Position} {newName : String} (plain : IsPlainName newName)
    {edits : List TextEdit}
    (renames : (ofText text).rename? position newName = some edits) :
    ∃ target result,
      (ofText text).document.targetAt? position = some target ∧
        TextEdit.applyAll edits text = some result ∧
          RenamesAction text target.name newName result := by
  obtain ⟨target, found, rfl⟩ := rename?_eq_some renames
  obtain ⟨pieces, closing, isCut⟩ := exists_isCutInto clean
  have applied := isCut.applyAll_renamingEdits clean target.name newName
  obtain ⟨scanned, tokens⟩ := isCut.scan_replacedText
    (fun token names => isString_of_names clean names) plain
  exact ⟨target, _, found, applied,
    renamesAction_of_tokens clean scanned tokens⟩

/-- Two blocks of one name, with the action declared twice and referred to twice. -/
def namesakes : String :=
  "workflow \"a\" \x7bon=\"push\" resolves=\"a\"\x7d\r\n" ++
    "action \"a\" \x7buses=\"./a\" args=\"a\"\x7d\r" ++
    "action \"😀\" \x7buses=\"./b\" needs=[\"😀\",\"a\"]\x7d"

theorem rename_exact_namesakes :
    (ofText namesakes).hasSyntaxErrors = false ∧ IsPlainName "b c" ∧
      ∃ edits, (ofText namesakes).rename? ⟨1, 8⟩ "b c" = some edits ∧
        ∃ target result,
          (ofText namesakes).document.targetAt? ⟨1, 8⟩ = some target ∧
            TextEdit.applyAll edits namesakes = some result ∧
              RenamesAction namesakes target.name "b c" result := by
  have clean : (ofText namesakes).hasSyntaxErrors = false :=
    (hasSyntaxErrors_eq_false_iff namesakes).mpr
      ⟨by decide +kernel, by decide +kernel⟩
  have plain : IsPlainName "b c" := by
    simp [IsPlainName, isControl]
  have renames : (ofText namesakes).rename? ⟨1, 8⟩ "b c" =
      some [⟨⟨⟨0, 34⟩, ⟨0, 35⟩⟩, "b c"⟩, ⟨⟨⟨2, 37⟩, ⟨2, 38⟩⟩, "b c"⟩,
        ⟨⟨⟨1, 8⟩, ⟨1, 9⟩⟩, "b c"⟩] := by
    have blocks : (ofText namesakes).document.blocks =
        (ofText namesakes).tree.blocks.map DocumentBlock.ofBlock :=
      (isOrdered clean).blocks_ofTree
    simp only [rename?, symbolAt?, Document.targetAt?, Document.symbol?,
      Document.referencesTo, Document.references, blocks]
    decide +kernel
  exact ⟨clean, plain, _, renames, rename_exact clean plain renames⟩

end Compilation

end WorkflowLang
