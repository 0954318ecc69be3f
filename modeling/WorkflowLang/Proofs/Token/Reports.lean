import WorkflowLang.Proofs.Token.Faults

/-!
# Where scanning reports

Scanning reports the faults of its tokens, and a fault covers some characters of its
token, so every report of a scan stands inside one of the tokens
(`Scan.exists_hasPart`).
-/

namespace WorkflowLang

open Text (units unitWidth)

/-- A span covers some of the characters that stand at a place on one line. -/
def Span.CoversPart (place : Position) (characters : List Char)
    (span : Span) : Prop :=
  ∃ before marked after, before ++ marked ++ after = characters ∧
    marked ≠ [] ∧
    span = ⟨place.right (units before), place.right (units (before ++ marked))⟩

namespace Span.CoversPart

variable {place : Position} {characters : List Char} {span : Span}

theorem head (place : Position) (character : Char) (others : List Char) :
    CoversPart place (character :: others)
      ⟨place, place.right (unitWidth character)⟩ :=
  ⟨[], [character], others, rfl, by simp, rfl⟩

theorem whole (nonempty : characters ≠ []) :
    CoversPart place characters ⟨place, place.right (units characters)⟩ :=
  ⟨[], characters, [], by simp, nonempty, rfl⟩

/-- What covers a part of the characters behind some others covers a part of all. -/
theorem behind (front : List Char)
    (covers : CoversPart (place.right (units front)) characters span) :
    CoversPart place (front ++ characters) span := by
  obtain ⟨before, marked, after, rfl, nonempty, rfl⟩ := covers
  refine ⟨front ++ before, marked, after, by simp, nonempty, ?_⟩
  simp [Position.right_right, Text.units_append]

end Span.CoversPart

/-- All of some reports cover characters that stand at a place. -/
def Diagnostic.AllCover (place : Position) (characters : List Char)
    (diagnostics : List Diagnostic) : Prop :=
  ∀ diagnostic ∈ diagnostics, Span.CoversPart place characters diagnostic.span

namespace Diagnostic

variable {place : Position} {characters : List Char}

@[simp] theorem allCover_nil : AllCover place characters [] := by
  simp [AllCover]

@[simp] theorem allCover_singleton {diagnostic : Diagnostic} :
    AllCover place characters [diagnostic] ↔
      Span.CoversPart place characters diagnostic.span := by
  simp [AllCover]

@[simp] theorem allCover_append {first second : List Diagnostic} :
    AllCover place characters (first ++ second) ↔
      AllCover place characters first ∧ AllCover place characters second :=
  List.forall_mem_append

theorem AllCover.behind (front : List Char) {diagnostics : List Diagnostic}
    (all : AllCover (place.right (units front)) characters diagnostics) :
    AllCover place (front ++ characters) diagnostics :=
  fun diagnostic member => (all diagnostic member).behind front

end Diagnostic

open Diagnostic (AllCover)

namespace StringPiece

/-- Control characters are one column wide. -/
theorem allCover_fault? (place : Position) (piece : StringPiece)
    (others : List Char) :
    AllCover place (piece.characters ++ others)
      (piece.fault? place).toList := by
  cases piece with
  | escape escaped =>
      rw [fault?]
      split
      · exact Diagnostic.allCover_nil
      · refine Diagnostic.allCover_singleton.mpr
          (Span.CoversPart.behind ['\\'] ?_)
        have head := Span.CoversPart.head (place.right 1) escaped others
        rwa [Position.right_right] at head
  | plain character =>
      rw [fault?]
      split
      · rename_i control
        have width : unitWidth character = 1 := by
          rw [isControl, Bool.or_eq_true, decide_eq_true_eq, beq_iff_eq]
            at control
          rw [unitWidth, if_pos (by omega)]
        exact Diagnostic.allCover_singleton.mpr (width ▸ Span.CoversPart.head ..)
      · exact Diagnostic.allCover_nil

theorem allCover_faults (place : Position) (pieces : List StringPiece) :
    AllCover place (pieces.flatMap characters) (faults place pieces) := by
  induction pieces generalizing place with
  | nil => exact Diagnostic.allCover_nil
  | cons piece others inductionHypothesis =>
      exact Diagnostic.allCover_append.mpr
        ⟨allCover_fault? place piece _,
          (inductionHypothesis _).behind piece.characters⟩

end StringPiece

/-- A span covers some characters of a token. -/
def Token.HasPart (token : Token) (span : Span) : Prop :=
  Span.CoversPart token.span.start token.text.toList span

namespace Token

variable {token : Token}

/-- The faults of a token stand in it. -/
theorem IsWellCut.hasPart_of_mem_faults (wellCut : token.IsWellCut)
    (whole : token.HasPart token.span) :
    ∀ diagnostic ∈ token.faults, token.HasPart diagnostic.span := by
  intro diagnostic member
  by_cases isString : token.kind = .string
  · rw [faults_of_string isString, List.mem_append] at member
    rcases member with inPiece | isUnterminated
    · have covers := (StringPiece.allCover_faults _ _).behind ['"']
        diagnostic inPiece
      rwa [HasPart, wellCut.text_eq isString]
    · split at isUnterminated
      · contradiction
      · rwa [List.mem_singleton.mp isUnterminated]
  by_cases isUnrecognized : token.kind = .unrecognized
  · rw [faults_of_unrecognized isUnrecognized] at member
    obtain ⟨character, -, rfl⟩ := List.mem_map.mp member
    exact whole
  · rw [faults_eq_nil isString isUnrecognized] at member
    contradiction

end Token

namespace Scan

variable {position : Position} {text : List Char}

/-- A whole token is a part of itself. -/
theorem hasPart_of_mem {token : Token}
    (member : token ∈ (scanFrom position text).tokens) :
    token.HasPart token.span := by
  obtain ⟨place, character, rest, -, rfl, -⟩ := exists_cut_of_mem member
  have nonempty := Lexeme.characters_cut_ne_nil place character rest
  simpa [Token.HasPart, Lexeme.toToken] using Span.CoversPart.whole nonempty

/-- A report of a scan stands inside a token. -/
theorem exists_hasPart (position : Position) (text : List Char) :
    ∀ diagnostic ∈ (scanFrom position text).diagnostics,
      ∃ token ∈ (scanFrom position text).tokens,
        token.HasPart diagnostic.span := by
  intro diagnostic member
  rw [diagnostics_scanFrom, List.mem_flatMap] at member
  obtain ⟨token, isToken, isFault⟩ := member
  exact ⟨token, isToken, (isWellCut_of_mem isToken).hasPart_of_mem_faults
    (hasPart_of_mem isToken) diagnostic isFault⟩

end Scan

end WorkflowLang
