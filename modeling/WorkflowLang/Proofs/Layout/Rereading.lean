import WorkflowLang.Proofs.Layout.Reattaching
import WorkflowLang.Proofs.Layout.Sheet

/-!
# The sheet of a layout

A layout is printed from its settled lines, the comments that wait behind them
and the comments that close the text.  Read again, the comments of the lines are
attached where they stood, and the others close the text
(`Layout.attach_sheet`); the line breaks are those of the text
(`Layout.lineBreak_renderAll`).
-/

namespace WorkflowLang

namespace Layout

/-! ## Lines whose tokens were moved -/

theorem later_map_unplaced (tokens : List Token) :
    SpacedToken.text (TokenLine.later (tokens.map Token.unplaced)) =
      SpacedToken.text (TokenLine.later tokens) := by
  simp only [TokenLine.later, SpacedToken.text, List.map_map,
    List.flatMap_map]
  rfl

theorem render_map_unplaced (indent : String) (depth width : Nat)
    (tokens : List Token) :
    TokenLine.render indent ⟨depth, width, tokens.map Token.unplaced⟩ =
      TokenLine.render indent ⟨depth, width, tokens⟩ := by
  cases tokens with
  | nil => rfl
  | cons first others =>
      simp only [TokenLine.render, List.map_cons, later_map_unplaced]
      rfl

theorem render_lines_mapTokens (indent : String) (line : SettledLine) :
    (line.mapTokens Token.unplaced).lines.map (TokenLine.render indent) =
      line.lines.map (TokenLine.render indent) := by
  cases line with
  | blank => rfl
  | line depth commentDepth width before planned comment =>
      have moved : planned.map Token.unplaced ++
          (comment.map commentToken).toList =
            (planned ++ (comment.map commentToken).toList).map
              Token.unplaced := by
        cases comment <;> simp [commentToken, Token.unplaced]
      simp only [SettledLine.mapTokens, SettledLine.lines]
      rw [List.map_append, List.map_append, moved, List.map_singleton,
        List.map_singleton, render_map_unplaced]

/-- Settled lines that differ in places only are printed alike. -/
theorem render_lines_congr {first second : List SettledLine}
    (same : first.map (SettledLine.mapTokens Token.unplaced) =
      second.map (SettledLine.mapTokens Token.unplaced)) (indent : String) :
    (first.flatMap SettledLine.lines).map (TokenLine.render indent) =
      (second.flatMap SettledLine.lines).map (TokenLine.render indent) := by
  have moved (lines : List SettledLine) :
      (lines.flatMap SettledLine.lines).map (TokenLine.render indent) =
        ((lines.map (SettledLine.mapTokens Token.unplaced)).flatMap
          SettledLine.lines).map (TokenLine.render indent) := by
    rw [List.map_flatMap, List.map_flatMap, List.flatMap_map]
    exact List.flatMap_congr fun line _ =>
      (render_lines_mapTokens indent line).symm
  rw [moved first, same, ← moved second]

theorem besidesOf_map (view : Token → Token) (before : List String)
    (comment : Option String) (planned : List Token) :
    besidesOf before comment (planned.map view) =
      besidesOf before comment planned := by
  fun_induction besidesOf before comment planned with
  | case1 => rfl
  | case2 => rfl
  | case3 before token next others inductionHypothesis =>
      exact congrArg ((before, none) :: ·) inductionHypothesis

theorem besides_congr {first second : List SettledLine}
    (same : first.map (SettledLine.mapTokens Token.unplaced) =
      second.map (SettledLine.mapTokens Token.unplaced)) :
    first.flatMap SettledLine.besides =
      second.flatMap SettledLine.besides := by
  have moved (lines : List SettledLine) :
      lines.flatMap SettledLine.besides =
        (lines.map (SettledLine.mapTokens Token.unplaced)).flatMap
          SettledLine.besides := by
    rw [List.flatMap_map]
    refine List.flatMap_congr fun line _ => ?_
    cases line with
    | blank => rfl
    | line _ _ _ before planned comment =>
        exact (besidesOf_map _ before comment planned).symm
  rw [moved first, same, ← moved second]

/-! ## Reading a layout -/

/-- All lines of a layout, from the settled lines, the comments that wait
behind them, and the comments that close the text. -/
def sheet (settled : List SettledLine) (waiting closing : List String) :
    List TokenLine :=
  let lines :=
    settled.flatMap SettledLine.lines ++ waiting.map (TokenLine.ofComment 0)
  let gap :=
    if closing.isEmpty || lines.isEmpty then [] else [TokenLine.blank]
  lines ++ gap ++ closing.map (TokenLine.ofComment 0)

/-- Comments on lines of their own, with an empty line between them or not,
close a text. -/
theorem attach_closing (indent : String) (number : Nat)
    (waiting closing : List String) (isClosed : Bool) :
    CommentedText.attach [] (TokenLine.placedFrom indent number
      (waiting.map (TokenLine.ofComment 0) ++
        ((if isClosed then [] else [TokenLine.blank]) ++
          closing.map (TokenLine.ofComment 0)))) =
      ⟨[], waiting ++ closing⟩ := by
  have gap (place : Nat) : TokenLine.placedFrom indent place
      (if isClosed then [] else [TokenLine.blank]) = [] := by
    cases isClosed <;> rfl
  obtain ⟨kinds, texts⟩ := placedFrom_comments indent number 0 waiting
  rw [placedFrom_append, placedFrom_append, gap, List.nil_append,
    CommentedText.attach_comments kinds, texts, List.nil_append]
  generalize number + _ + _ = place
  obtain ⟨otherKinds, otherTexts⟩ :=
    placedFrom_comments indent place 0 closing
  have closed := CommentedText.attach_comments otherKinds waiting []
  rwa [List.append_nil, otherTexts] at closed

/-- Where the comments of a layout are attached. -/
theorem attach_sheet {indent : String} (isIndent : IsIndent indent)
    {settled : List SettledLine} (sound : ∀ line ∈ settled, line.IsSound)
    (waiting closing : List String) :
    (CommentedText.attach [] (TokenLine.placedFrom indent 0
        (sheet settled waiting closing))).tokens.map
          CommentedToken.besides =
        settled.flatMap SettledLine.besides ∧
      (CommentedText.attach [] (TokenLine.placedFrom indent 0
        (sheet settled waiting closing))).closing = waiting ++ closing := by
  rw [sheet, List.append_assoc, List.append_assoc, placedFrom_append]
  generalize (closing.isEmpty || _) = isClosed
  have end_eq := attach_closing indent
    (0 + (settled.flatMap SettledLine.lines).length) waiting closing isClosed
  obtain ⟨tokens, closed⟩ := besides_attach_lines isIndent sound
    (fun token member => TokenLine.le_line_of_mem_placedFrom isIndent member)
  rw [tokens, closed, end_eq]
  exact ⟨List.append_nil _, rfl⟩

theorem render_sheet_congr {first second : List SettledLine}
    (same : first.map (SettledLine.mapTokens Token.unplaced) =
      second.map (SettledLine.mapTokens Token.unplaced)) (indent : String)
    (waiting closing : List String) :
    (sheet first waiting closing).map (TokenLine.render indent) =
      (sheet second waiting closing).map (TokenLine.render indent) := by
  have lines := render_lines_congr same indent
  have woven := congrArg
    (fun front => (front ++ (waiting.map (TokenLine.ofComment 0)).map
      (TokenLine.render indent)).isEmpty) lines
  simp only [← List.map_append, List.isEmpty_map] at woven
  simp only [sheet, List.map_append, lines, woven]

theorem renderAll_eq (indent : String) (newline : List Char)
    (lines : List TokenLine) :
    TokenLine.renderAll indent newline lines =
      (lines.map (TokenLine.render indent)).flatMap fun line =>
        line ++ newline := by
  rw [TokenLine.renderAll, List.flatMap_map]

theorem renderAll_append (indent : String) (newline : List Char)
    (first second : List TokenLine) :
    TokenLine.renderAll indent newline (first ++ second) =
      TokenLine.renderAll indent newline first ++
        TokenLine.renderAll indent newline second :=
  List.flatMap_append

theorem settle_ne_nil {commented : List CommentedToken}
    {plan : List PlannedLine}
    (waits : (settle [] commented plan).2 ≠ []) :
    (settle [] commented plan).1.flatMap SettledLine.lines ≠ [] := by
  cases plan with
  | nil => exact absurd rfl waits
  | cons line others => cases line <;> simp [settle, SettledLine.lines]

/-- A comment that waits is printed where a layout of its own has a blank line. -/
theorem renderAll_sheet_ne (indent : String) {newline : List Char}
    (isNewline : IsNewline newline) {settled : List SettledLine}
    (nonempty : settled.flatMap SettledLine.lines ≠ []) {first : String}
    (recut : (commentToken first).IsRecut) (waiting closing : List String) :
    TokenLine.renderAll indent newline
        (sheet settled [] ((first :: waiting) ++ closing)) ≠
      TokenLine.renderAll indent newline
        (sheet settled (first :: waiting) closing) := by
  have isFilled : (settled.flatMap SettledLine.lines).isEmpty = false := by
    simpa using nonempty
  have gap (rest : List TokenLine) : TokenLine.renderAll indent newline
      (TokenLine.blank :: rest) =
        newline ++ TokenLine.renderAll indent newline rest := by
    simp [TokenLine.renderAll, TokenLine.blank, TokenLine.render]
  have comment (rest : List TokenLine) : TokenLine.renderAll indent newline
      (TokenLine.ofComment 0 first :: rest) = first.toList ++
        (newline ++ TokenLine.renderAll indent newline rest) := by
    simp [TokenLine.renderAll, TokenLine.ofComment, TokenLine.render,
      TokenLine.indentation, TokenLine.padding, TokenLine.later,
      SpacedToken.text, commentToken]
  intro same
  simp only [sheet, List.cons_append, List.map_nil, List.append_nil, isFilled,
    List.isEmpty_cons, Bool.or_self, Bool.false_eq_true, if_false,
    List.append_assoc, renderAll_append, List.append_cancel_left_eq,
    List.map_cons, gap, comment] at same
  obtain ⟨character, others, text, begins, _⟩ := recut
  have first_eq : first.toList = character :: others := text
  have isBreak := isNewline.isLineBreak_head _ character (by
    rw [same, first_eq]
    rfl)
  rw [begins.1] at isBreak
  contradiction

/-! ## Line breaks of a layout -/

/-- No line of a layout breaks. -/
theorem TokenLine.IsReadable.oneLine_render {line : TokenLine}
    (readable : line.IsReadable) {indent : String}
    (isIndent : IsIndent indent) :
    ∀ character ∈ line.render indent,
      Text.isLineBreak character = false := by
  obtain ⟨depth, width, tokens⟩ := line
  intro character member
  cases tokens with
  | nil => simp [render] at member
  | cons first others =>
      rcases List.mem_append.mp member with isIndentation | behind
      · exact isLineBreak_of_blank
          (isBlank_indentation isIndent depth character isIndentation)
      rcases List.mem_append.mp behind with isFirst | behind
      · exact (readable.isRecut first List.mem_cons_self).oneLine character
          isFirst
      rcases List.mem_append.mp behind with isPadding | isLater
      · exact isLineBreak_of_blank
          (isBlank_padding width first character isPadding)
      · obtain ⟨piece, present, inside⟩ := List.mem_flatMap.mp isLater
        rcases List.mem_append.mp inside with isGap | isText
        · exact isLineBreak_of_blank
            (onOneLine_later others piece present character isGap)
        · obtain ⟨token, isToken, rfl⟩ := List.mem_map.mp present
          exact (readable.isRecut token
            (List.mem_cons_of_mem _ isToken)).oneLine character isText

theorem hasCarriageReturns_append (before behind : List Char) :
    hasCarriageReturns (before ++ '\r' :: '\n' :: behind) = true := by
  induction before with
  | nil => rfl
  | cons character others inductionHypothesis =>
      rw [List.cons_append]
      unfold hasCarriageReturns
      split
      · rfl
      · rename_i same
        rw [List.cons.injEq] at same
        rw [← same.2]
        exact inductionHypothesis
      · rename_i same
        simp at same

theorem hasCarriageReturns_eq_false {text : List Char}
    (absent : '\r' ∉ text) : hasCarriageReturns text = false := by
  fun_induction hasCarriageReturns text with
  | case1 => simp at absent
  | case2 _ _ _ inductionHypothesis =>
      exact inductionHypothesis fun member =>
        absent (List.mem_cons_of_mem _ member)
  | case3 => rfl

/-- A layout has the line breaks of the text, if it has any. -/
theorem lineBreak_renderAll {text indent : String}
    (isIndent : IsIndent indent) {lines : List TokenLine}
    (readable : ∀ line ∈ lines, line.IsReadable) (nonempty : lines ≠ []) :
    lineBreak (String.ofList (TokenLine.renderAll indent
      (lineBreak text).toList lines)) = lineBreak text := by
  have found : hasCarriageReturns (TokenLine.renderAll indent
      (lineBreak text).toList lines) = hasCarriageReturns text.toList := by
    cases returns : hasCarriageReturns text.toList with
    | true =>
        obtain ⟨line, others, rfl⟩ := List.exists_cons_of_ne_nil nonempty
        have newline : (lineBreak text).toList = ['\r', '\n'] := by
          simp [lineBreak, returns]
        have split : TokenLine.renderAll indent ['\r', '\n']
            (line :: others) = line.render indent ++ '\r' :: '\n' ::
              TokenLine.renderAll indent ['\r', '\n'] others := by
          simp [TokenLine.renderAll]
        rw [newline, split, hasCarriageReturns_append]
    | false =>
        have newline : (lineBreak text).toList = ['\n'] := by
          simp [lineBreak, returns]
        refine hasCarriageReturns_eq_false fun member => ?_
        obtain ⟨line, present, inside⟩ := List.mem_flatMap.mp member
        rcases List.mem_append.mp inside with isRendered | isNewline
        · exact absurd ((readable line present).oneLine_render isIndent _
            isRendered) (by decide)
        · rw [newline] at isNewline
          exact absurd isNewline (by decide)
  unfold lineBreak
  rw [String.toList_ofList]
  rw [lineBreak] at found
  rw [found]

end Layout

end WorkflowLang
