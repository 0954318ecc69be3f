import WorkflowLang.Proofs.Editor.Renaming
import WorkflowLang.Proofs.Tree.StandIns

/-!
# Edits inside strings

An edit of a renaming should stand in a string that says the name: between its
quotes, or up to its end when the string is unterminated.  The edits do so, and
keep apart from each other, unless one of two things happens: a block without a
name counts as declaring the empty name, or an unterminated string ends in a
quote behind a backslash, which is then taken for a closing one
(`Compilation.rename_fills_strings_iff`).
-/

namespace WorkflowLang

theorem Position.right_injective (width : Nat) {first second : Position}
    (same : first.right width = second.right width) : first = second := by
  cases first
  cases second
  simpa [right] using same

theorem Text.length_le_units (characters : List Char) :
    characters.length ≤ units characters := by
  induction characters with
  | nil => exact Nat.le_refl 0
  | cons character others inductionHypothesis =>
      have positive := unitWidth_pos character
      rw [List.length_cons, units_cons]
      omega

namespace Scan

/-- Of two tokens one ends before the other begins. -/
theorem isBefore_or_isBefore {position : Position} {text : List Char}
    {first second : Token}
    (isFirst : first ∈ (scanFrom position text).tokens)
    (isSecond : second ∈ (scanFrom position text).tokens)
    (distinct : first ≠ second) :
    first.IsBefore second ∨ second.IsBefore first := by
  have symmetric : Std.Symm fun first second : Token =>
      first.IsBefore second ∨ second.IsBefore first :=
    ⟨fun _ _ either => either.symm⟩
  have either : (scanFrom position text).tokens.Pairwise
      fun first second => first.IsBefore second ∨ second.IsBefore first :=
    (pairwise_isBefore position text).imp Or.inl
  exact either.forall isFirst isSecond distinct

/-- A string begins with a quote.  It ends with another one, unless it is reported
as unterminated. -/
theorem exists_inner_of_isString {position : Position} {text : List Char}
    {token : Token} (member : token ∈ (scanFrom position text).tokens)
    (isString : token.kind = .string) :
    ∃ inner, token.text.toList = '"' :: inner ∧
      (⟨.unterminatedString, token.span⟩ ∈
          (scanFrom position text).diagnostics ∨
        ∃ body, inner = body ++ ['"']) := by
  obtain ⟨place, character, rest, -, rfl, reported⟩ :=
    exists_cut_of_mem member
  obtain rfl : character = '"' := Lexeme.eq_quote_of_kind_cut isString
  rw [Lexeme.cut_of_quote] at reported ⊢
  refine ⟨(StringBody.read (place.right 1) rest).characters, ?_, ?_⟩
  · simp [Lexeme.toToken, Lexeme.cutString]
  · cases closed : (StringBody.read (place.right 1) rest).isClosed with
    | true => exact Or.inr (StringBody.exists_inner_of_isClosed closed)
    | false =>
        refine Or.inl (reported ?_)
        simp [Lexeme.cutString, Lexeme.toToken, closed]

end Scan

/-- Two edits do not touch each other. -/
def TextEdit.Apart (first second : TextEdit) : Prop :=
  ¬second.span.start ≤ first.span.finish ∨
    ¬first.span.start ≤ second.span.finish

namespace Compilation

/-- The closing quote of a string is reported as absent. -/
def IsUnterminated (compilation : Compilation) (token : Token) : Prop :=
  ⟨.unterminatedString, token.span⟩ ∈ compilation.diagnostics

/-- A string is unterminated although its last character is a quote. -/
def LooksTerminated (compilation : Compilation) (token : Token) : Prop :=
  compilation.IsUnterminated token ∧ 1 < token.text.toList.length ∧
    token.text.toList.getLast? = some '"'

/-- An edit puts a name between the quotes of a string, or behind its opening
quote when it is unterminated. -/
def Fills (compilation : Compilation) (newName : String) (token : Token)
    (edit : TextEdit) : Prop :=
  (¬compilation.IsUnterminated token ∧
      TextEdit.Renames newName token edit) ∨
    (compilation.IsUnterminated token ∧
      edit = ⟨⟨token.span.start.right 1, token.span.finish⟩, newName⟩)

/-- An edit puts a name into a string of the text that says another name. -/
def FillsString (compilation : Compilation) (name newName : String)
    (edit : TextEdit) : Prop :=
  ∃ token ∈ compilation.tokens, token.kind = .string ∧
    Text.unquote token.text = name ∧ compilation.Fills newName token edit

theorem Fills.start_eq {compilation : Compilation} {newName : String}
    {token : Token} {edit : TextEdit}
    (fills : compilation.Fills newName token edit) :
    edit.span.start = token.span.start.right 1 := by
  rcases fills with ⟨-, _, -, rfl⟩ | ⟨-, rfl⟩
  · rfl
  · rfl

variable {text : String}

theorem width_pos {token : Token} (member : token ∈ (ofText text).tokens) :
    0 < Text.units token.text.toList := by
  obtain ⟨width, positive, finish⟩ := Scan.isWide_of_mem member
  rw [Scan.finish_of_mem member, Position.right, Position.right,
    Position.mk.injEq] at finish
  omega

/-- The edit of a token does not go beyond its end. -/
theorem finish_renamingEdit_le {token : Token}
    (member : token ∈ (ofText text).tokens) (newName : String) :
    ((ofText text).renamingEdit newName token).span.finish ≤
      token.span.finish := by
  have wide := width_pos member
  rw [renamingEdit, innerSpan, Scan.finish_of_mem member]
  refine Or.inr ⟨rfl, ?_⟩
  simp only [Position.right]
  split <;> omega

/-- The edits of two tokens keep apart. -/
theorem apart_renamingEdit {first second : Token}
    (isFirst : first ∈ (ofText text).tokens)
    (isSecond : second ∈ (ofText text).tokens) (distinct : first ≠ second)
    (newName : String) :
    TextEdit.Apart ((ofText text).renamingEdit newName first)
      ((ofText text).renamingEdit newName second) := by
  have behind {before after : Token} (isBefore : before.IsBefore after)
      (member : before ∈ (ofText text).tokens) :
      ¬((ofText text).renamingEdit newName after).span.start ≤
        ((ofText text).renamingEdit newName before).span.finish := by
    intro touches
    have inside := Position.le_trans touches
      (finish_renamingEdit_le member newName)
    exact Position.not_right_le Nat.one_pos
      (Position.le_trans inside isBefore)
  rcases Scan.isBefore_or_isBefore isFirst isSecond distinct with
    isBefore | isBefore
  · exact Or.inl (behind isBefore isFirst)
  · exact Or.inr (behind isBefore isSecond)

/-- The edit of a string fills it, unless the string looks terminated. -/
theorem fills_renamingEdit {token : Token}
    (member : token ∈ (ofText text).tokens)
    (isString : token.kind = .string)
    (plain : ¬(ofText text).LooksTerminated token) (newName : String) :
    (ofText text).Fills newName token
      ((ofText text).renamingEdit newName token) := by
  by_cases isOpen : (ofText text).IsUnterminated token
  · have notQuote : ¬(ofText text).endsInQuote token.span = true := by
      rw [endsInQuote_span member]
      exact fun quote => plain ⟨isOpen, quote⟩
    have wide := width_pos member
    refine Or.inr ⟨isOpen, ?_⟩
    rw [renamingEdit, innerSpan, if_neg notQuote, Scan.finish_of_mem member]
    simp only [Position.right, TextEdit.mk.injEq, Span.mk.injEq,
      Position.mk.injEq, true_and, and_true]
    omega
  · obtain ⟨inner, characters, ends⟩ :=
      Scan.exists_inner_of_isString member isString
    have closed : ∃ body, inner = body ++ ['"'] := by
      refine ends.resolve_left fun reported => isOpen ?_
      simp only [IsUnterminated, ofText, List.mem_append]
      exact Or.inl (Or.inl (Or.inl reported))
    obtain ⟨body, rfl⟩ := closed
    exact Or.inl ⟨isOpen, renames_of_quotes member characters newName⟩

/-- The edit of a string that looks terminated stops too early. -/
theorem not_fills_renamingEdit {token : Token}
    (member : token ∈ (ofText text).tokens)
    (looks : (ofText text).LooksTerminated token) (newName : String) :
    ¬(ofText text).Fills newName token
      ((ofText text).renamingEdit newName token) := by
  obtain ⟨isOpen, quote⟩ := looks
  have long : 1 < Text.units token.text.toList :=
    Nat.lt_of_lt_of_le quote.1 (Text.length_le_units _)
  rintro (⟨notOpen, -⟩ | ⟨-, edit⟩)
  · exact notOpen isOpen
  · rw [renamingEdit, innerSpan,
      if_pos ((endsInQuote_span member).mpr quote),
      Scan.finish_of_mem member] at edit
    simp only [Position.right, TextEdit.mk.injEq, Span.mk.injEq,
      Position.mk.injEq, true_and, and_true] at edit
    omega

-- The name has three characters behind its quote, and the edit leaves the last.
example : (ofText "action \"a\\\"\n\x7b uses = \"./x\" \x7d").rename? ⟨0, 8⟩
    "new" = some [⟨⟨⟨0, 8⟩, ⟨0, 10⟩⟩, "new"⟩] := by cbv

theorem unquote_of_names {name : String} {token : Token}
    (names : token ∈ (ofText text).document.namingTokens name) :
    Text.unquote token.text = name := by
  obtain ⟨block, -, declares | refers⟩ := SyntaxTree.mem_namingTokens.mp names
  · obtain ⟨-, rfl, named⟩ := Block.mem_declaringTokens.mp declares
    exact named
  · exact (Block.mem_referringTokens refers).1

/-- A stand-in that counts as a name stands at a token that is no string. -/
theorem exists_token_of_missing {name : String} {token : Token}
    (names : token ∈ (ofText text).document.namingTokens name)
    (missing : token.isMissing = true) :
    ∃ other ∈ (ofText text).tokens, other.kind ≠ .string ∧
      token.span = other.span := by
  obtain ⟨block, isBlock, declares | refers⟩ :=
    SyntaxTree.mem_namingTokens.mp names
  · obtain ⟨-, rfl, -⟩ := Block.mem_declaringTokens.mp declares
    exact Parse.exists_token_of_isMissing_name isBlock missing
  · rw [Block.isMissing_of_mem_referringTokens refers] at missing
    contradiction

/-- Names that are no stand-ins stand each in its own place. -/
theorem nodup_namingTokens {name : String}
    (present : ∀ token ∈ (ofText text).document.namingTokens name,
      token.isMissing = false) :
    ((ofText text).document.namingTokens name).Nodup := by
  have blockwise := (ofText text).tree.namingTokens_perm name
  have inText := Parse.sublist_of_present
    ((ofText text).tree.flatMap_namingTokens_sublist name)
    fun token member => present token (blockwise.mem_iff.mpr member)
  exact blockwise.nodup_iff.mpr (inText.nodup (Scan.nodup_tokens _ _))

/-- The edit of a name fills a string that says it, exactly when the name is no
stand-in and does not look terminated. -/
theorem fillsString_renamingEdit_iff {name : String} {token : Token}
    (names : token ∈ (ofText text).document.namingTokens name)
    (newName : String) :
    (ofText text).FillsString name newName
        ((ofText text).renamingEdit newName token) ↔
      token.isMissing = false ∧ ¬(ofText text).LooksTerminated token := by
  constructor
  · rintro ⟨other, isToken, isString, -, fills⟩
    have starts : token.span.start = other.span.start :=
      Position.right_injective 1 fills.start_eq
    cases isMissing : token.isMissing with
    | true =>
        obtain ⟨place, isPlace, notString, span⟩ :=
          exists_token_of_missing names isMissing
        rw [span] at starts
        obtain rfl := Scan.eq_of_start_eq isPlace isToken starts
        exact absurd isString notString
    | false =>
        have inText := mem_tokens_of_present names isMissing
        obtain rfl := Scan.eq_of_start_eq inText isToken starts
        exact ⟨rfl, fun looks =>
          not_fills_renamingEdit inText looks newName fills⟩
  · rintro ⟨present, plain⟩
    have inText := mem_tokens_of_present names present
    have isString := isString_of_present names present
    exact ⟨token, inText, isString, unquote_of_names names,
      fills_renamingEdit inText isString plain newName⟩

/-- The edits of names that are no stand-ins keep apart. -/
theorem pairwise_apart_renamingEdit {name : String}
    (present : ∀ token ∈ (ofText text).document.namingTokens name,
      token.isMissing = false) (newName : String) :
    (((ofText text).document.namingTokens name).map
      ((ofText text).renamingEdit newName)).Pairwise TextEdit.Apart := by
  rw [List.pairwise_map]
  apply (nodup_namingTokens present).imp_of_mem
  intro first second isFirst isSecond distinct
  exact apart_renamingEdit
    (mem_tokens_of_present isFirst (present first isFirst))
    (mem_tokens_of_present isSecond (present second isSecond))
    distinct newName

/-- The edits of a renaming stand in strings that say the name and keep apart,
exactly when no block without a name counts as declaring it and no string that
says it is unterminated but ends in a quote. -/
theorem rename_fills_strings_iff {position : Position} {newName : String}
    {edits : List TextEdit}
    (renames : (ofText text).rename? position newName = some edits) :
    ∃ target, (ofText text).document.targetAt? position = some target ∧
      ((∀ edit ∈ edits,
          (ofText text).FillsString target.name newName edit) ∧
        edits.Pairwise TextEdit.Apart ↔
          ∀ token ∈ (ofText text).document.namingTokens target.name,
            token.isMissing = false ∧
              ¬(ofText text).LooksTerminated token) := by
  obtain ⟨target, found, rfl⟩ := rename?_eq_some renames
  refine ⟨target, found, ?_, ?_⟩
  · rintro ⟨fill, -⟩ token names
    exact (fillsString_renamingEdit_iff names newName).mp
      (fill _ (List.mem_map_of_mem names))
  · intro plain
    constructor
    · intro edit member
      obtain ⟨token, names, rfl⟩ := List.mem_map.mp member
      exact (fillsString_renamingEdit_iff names newName).mpr
        (plain token names)
    · exact pairwise_apart_renamingEdit
        (fun token names => (plain token names).1) newName

/-- A dependency without a closing quote on an action that has one. -/
def openDependency : String :=
  "action \"build\" \x7b uses = \"./b\" \x7d\n" ++
    "action \"a\" \x7b\n  uses = \"./a\"\n  needs = \"build\n\x7d"

theorem rename_fills_strings_openDependency :
    ∃ edits,
      (ofText openDependency).rename? ⟨0, 9⟩ "compile" = some edits ∧
        ∃ target, (ofText openDependency).document.targetAt? ⟨0, 9⟩ =
            some target ∧
          ((∀ edit ∈ edits, (ofText openDependency).FillsString target.name
              "compile" edit) ∧
            edits.Pairwise TextEdit.Apart ↔
              ∀ token ∈ (ofText openDependency).document.namingTokens
                  target.name,
                token.isMissing = false ∧
                  ¬(ofText openDependency).LooksTerminated token) := by
  have renames : (ofText openDependency).rename? ⟨0, 9⟩ "compile" =
      some [⟨⟨⟨3, 11⟩, ⟨3, 16⟩⟩, "compile"⟩,
        ⟨⟨⟨0, 8⟩, ⟨0, 13⟩⟩, "compile"⟩] := by
    have blocks : (ofText openDependency).document.blocks =
        (ofText openDependency).tree.blocks.map DocumentBlock.ofBlock :=
      SyntaxTree.blocks_ofTree (by decide +kernel)
    simp only [rename?, symbolAt?, Document.targetAt?, Document.symbol?,
      Document.referencesTo, Document.references, blocks]
    decide +kernel
  exact ⟨_, renames, rename_fills_strings_iff renames⟩

/-- An action without a name before one that depends on the empty name. -/
def namelessAction : String :=
  "action\naction \"b\" \x7b uses = \"./x\" needs = \"\" \x7d"

/-- Renaming the dependency cuts into the keyword at which the name of the first
action is missed. -/
theorem rename_fills_keyword :
    ∃ edits target,
      (ofText namelessAction).rename? ⟨1, 35⟩ "new" = some edits ∧
        (ofText namelessAction).document.targetAt? ⟨1, 35⟩ = some target ∧
          ¬∀ edit ∈ edits,
            (ofText namelessAction).FillsString target.name "new" edit := by
  have renames : (ofText namelessAction).rename? ⟨1, 35⟩ "new" =
      some [⟨⟨⟨1, 35⟩, ⟨1, 35⟩⟩, "new"⟩,
        ⟨⟨⟨1, 1⟩, ⟨1, 6⟩⟩, "new"⟩] := by
    have blocks : (ofText namelessAction).document.blocks =
        (ofText namelessAction).tree.blocks.map DocumentBlock.ofBlock :=
      SyntaxTree.blocks_ofTree (by decide +kernel)
    simp only [rename?, symbolAt?, Document.targetAt?, Document.symbol?,
      Document.referencesTo, Document.references, blocks]
    decide +kernel
  obtain ⟨target, found, -⟩ := rename?_eq_some renames
  refine ⟨_, target, renames, found, fun fill => ?_⟩
  obtain ⟨token, isToken, isString, -, fills⟩ :=
    fill ⟨⟨⟨1, 1⟩, ⟨1, 6⟩⟩, "new"⟩ (by simp)
  have noString : ∀ token ∈ (ofText namelessAction).tokens,
      token.kind = .string → ⟨1, 1⟩ ≠ token.span.start.right 1 := by
    decide +kernel
  exact noString token isToken isString fills.start_eq

end Compilation

end WorkflowLang
