import WorkflowLang.CommandLine.FormatCommand
import WorkflowLang.Proofs.Files.Places

/-!
# Formatting a tree of files

The command reads all files before it changes one, so an unreadable file keeps all
of them as they are.  Afterwards it goes through the files in order.  What each step
keeps true is that the files passed hold the layouts of what they held at first, and
all others hold what they held (`FormatCommand.HasFormatted`).  A file that is listed
again, under its own or another path, is given the same text again.  The main result
puts this together for the whole command (`FormatCommand.run_formats`).
-/

namespace WorkflowLang

namespace FileTree

variable {tree changed : FileTree} {path content : String}

theorem run_read (tree : FileTree) (path : String) :
    (FileSystem.read path : StateM FileTree (Except FileError String)).run tree =
      (tree.read path, tree) :=
  rfl

theorem run_write (writes : tree.write path content = .ok changed) :
    (FileSystem.write path content :
        StateM FileTree (Except FileError Unit)).run tree =
      (.ok (), changed) := by
  change update (fun tree => tree.write path content) tree = _
  rw [update, writes]

theorem exists_error_iff {result : Except FileError String} :
    (∃ cause, result = .error cause) ↔ ¬∃ text, result = .ok text := by
  cases result <;> simp

theorem unreadable_iff (tree : FileTree) (paths : List String) :
    (∃ path ∈ paths, ∃ cause, tree.read path = .error cause) ↔
      ¬∀ path ∈ paths, ∃ text, tree.read path = .ok text := by
  simp only [exists_error_iff, Classical.not_forall, exists_prop]

end FileTree

namespace SourceFile

variable {tree : FileTree} {path text : String} {others : List String}

theorem run_readAll_cons (reads : tree.read path = .ok text)
    {result : Except SourceError (List SourceFile)}
    (rest : (readAll others : StateM FileTree _).run tree = (result, tree)) :
    (readAll (path :: others) : StateM FileTree _).run tree =
      (result.map (⟨path, text⟩ :: ·), tree) := by
  rw [readAll, StateT.run_bind, FileTree.run_read]
  change StateT.run _ tree = _
  rw [reads]
  simp only [StateT.run_bind]
  rw [rest]
  cases result with
  | error error => rfl
  | ok sources => rfl

theorem run_readAll_of_error {cause : FileError}
    (fails : tree.read path = .error cause) :
    (readAll (path :: others) : StateM FileTree _).run tree =
      (.error (.unreadable path cause), tree) := by
  rw [readAll, StateT.run_bind, FileTree.run_read, fails]
  rfl

/-- Files are read as they are, if each can be read. -/
theorem run_readAll_of_readable {paths : List String}
    (readable : ∀ path ∈ paths, ∃ text, tree.read path = .ok text) :
    ∃ sources,
      (readAll paths : StateM FileTree _).run tree = (.ok sources, tree) ∧
        sources.map SourceFile.path = paths ∧
          ∀ source ∈ sources, tree.read source.path = .ok source.text := by
  induction paths with
  | nil => exact ⟨[], rfl, rfl, by simp⟩
  | cons path others inductionHypothesis =>
      obtain ⟨text, reads⟩ := readable path (by simp)
      obtain ⟨sources, run, named, hold⟩ := inductionHypothesis
        fun other member => readable other (List.mem_cons_of_mem _ member)
      refine ⟨⟨path, text⟩ :: sources, run_readAll_cons reads run, ?_, ?_⟩
      · rw [List.map_cons, named]
      · exact List.forall_mem_cons.mpr ⟨reads, hold⟩

/-- One file that cannot be read is enough for an error. -/
theorem run_readAll_of_unreadable {paths : List String}
    (unreadable : ∃ path ∈ paths, ∃ cause, tree.read path = .error cause) :
    ∃ error,
      (readAll paths : StateM FileTree _).run tree = (.error error, tree) := by
  induction paths with
  | nil => simp at unreadable
  | cons path others inductionHypothesis =>
      cases reads : tree.read path with
      | error cause => exact ⟨_, run_readAll_of_error reads⟩
      | ok text =>
          obtain ⟨other, member, cause, fails⟩ := unreadable
          obtain rfl | isLater := List.mem_cons.mp member
          · rw [reads] at fails
            contradiction
          · obtain ⟨error, run⟩ :=
              inductionHypothesis ⟨other, isLater, cause, fails⟩
            exact ⟨error, run_readAll_cons reads run⟩

end SourceFile

namespace Output

theorem exitCode_append (first second : Output) :
    (first ++ second).exitCode = max first.exitCode second.exitCode :=
  rfl

end Output

namespace FormatCommand

/-- What a file with a text holds when it has been formatted. -/
def resultText (indent text : String) : String :=
  ((Compilation.ofText text).format? indent).getD text

/-- What is to be done about a file. -/
def planned (indent : String) (source : SourceFile) : String × Formatting :=
  (source.path, Formatting.ofText indent source.text)

variable {indent text : String}

theorem format?_eq_none_iff :
    (Compilation.ofText text).format? indent = none ↔
      (Compilation.ofText text).hasSyntaxErrors = true := by
  simp [Compilation.format?]

theorem format?_eq_some_resultText
    (clean : (Compilation.ofText text).hasSyntaxErrors = false) :
    (Compilation.ofText text).format? indent =
      some (resultText indent text) := by
  cases formats : (Compilation.ofText text).format? indent with
  | none => simp [format?_eq_none_iff.mp formats] at clean
  | some formatted => rw [resultText, formats, Option.getD_some]

theorem resultText_of_broken
    (broken : (Compilation.ofText text).hasSyntaxErrors = true) :
    resultText indent text = text := by
  rw [resultText, format?_eq_none_iff.mpr broken, Option.getD_none]

theorem clean_of_format? {layout : String}
    (formats : (Compilation.ofText text).format? indent = some layout) :
    (Compilation.ofText text).hasSyntaxErrors = false := by
  cases broken : (Compilation.ofText text).hasSyntaxErrors with
  | false => rfl
  | true =>
      rw [format?_eq_none_iff.mpr broken] at formats
      contradiction

/-- What is to be done about a text, by the three cases. -/
theorem ofText_cases (indent text : String) :
    ((Compilation.ofText text).hasSyntaxErrors = true ∧
        Formatting.ofText indent text = .hasSyntaxErrors) ∨
      ((Compilation.ofText text).hasSyntaxErrors = false ∧
        ((resultText indent text = text ∧
            Formatting.ofText indent text = .unchanged) ∨
          (resultText indent text ≠ text ∧
            Formatting.ofText indent text =
              .changed (resultText indent text)))) := by
  cases broken : (Compilation.ofText text).hasSyntaxErrors with
  | true =>
      rw [Formatting.ofText, format?_eq_none_iff.mpr broken]
      exact Or.inl ⟨rfl, rfl⟩
  | false =>
      rw [Formatting.ofText, format?_eq_some_resultText broken]
      refine Or.inr ⟨rfl, ?_⟩
      by_cases same : resultText indent text = text
      · exact Or.inl ⟨same, if_pos same⟩
      · exact Or.inr ⟨same, if_neg same⟩

theorem ofText_eq_unchanged_iff :
    Formatting.ofText indent text = .unchanged ↔
      (Compilation.ofText text).format? indent = some text := by
  unfold Formatting.ofText
  cases (Compilation.ofText text).format? indent with
  | none => simp
  | some formatted =>
      by_cases same : formatted = text
      · simp [same]
      · simp [same]

/-- Some files have been formatted, and nothing else has changed. -/
structure HasFormatted (indent : String) (paths : List String)
    (before after : FileTree) : Prop where
  place_eq : ∀ path, after.place path = before.place path
  listed : ∀ path ∈ paths, ∀ place, before.place path = .ok place →
    after.contentAt place = (before.contentAt place).map (resultText indent)
  others : ∀ place, (∀ path ∈ paths, before.place path ≠ .ok place) →
    after.contentAt place = before.contentAt place

theorem hasFormatted_nil (indent : String) (tree : FileTree) :
    HasFormatted indent [] tree tree where
  place_eq _ := rfl
  listed _ member := by simp at member
  others _ _ := rfl

namespace HasFormatted

variable {before after : FileTree} {paths : List String} {path : String}
  {place : List String}

/-- A file holds its first text or has been formatted. -/
theorem contentAt_cases (formatted : HasFormatted indent paths before after)
    (holds : before.contentAt place = .ok text) :
    after.contentAt place = .ok text ∨
      after.contentAt place = .ok (resultText indent text) := by
  by_cases isListed : ∃ path ∈ paths, before.place path = .ok place
  · obtain ⟨path, member, leads⟩ := isListed
    rw [formatted.listed path member place leads, holds]
    exact Or.inr rfl
  · rw [formatted.others place fun path member leads =>
      isListed ⟨path, member, leads⟩]
    exact Or.inl holds

/-- A file whose text is its own result has been formatted already. -/
theorem keep (formatted : HasFormatted indent paths before after)
    (leads : before.place path = .ok place)
    (holds : before.contentAt place = .ok text)
    (same : resultText indent text = text) :
    HasFormatted indent (path :: paths) before after where
  place_eq := formatted.place_eq
  listed := by
    refine List.forall_mem_cons.mpr ⟨fun other otherLeads => ?_,
      formatted.listed⟩
    obtain rfl := Except.ok.inj (leads.symm.trans otherLeads)
    have cases := formatted.contentAt_cases holds
    rw [same, or_self] at cases
    rw [cases, holds, Except.map, same]
  others other beside :=
    formatted.others other fun path member =>
      beside path (List.mem_cons_of_mem _ member)

/-- A listed file is writable, and has been formatted when its result is
written. -/
theorem write (formatted : HasFormatted indent paths before after)
    (leads : before.place path = .ok place)
    (holds : before.contentAt place = .ok text) :
    ∃ changed, after.write path (resultText indent text) = .ok changed ∧
      HasFormatted indent (path :: paths) before changed := by
  obtain ⟨old, holdsNow⟩ : ∃ old, after.contentAt place = .ok old := by
    rcases formatted.contentAt_cases holds with same | result
    · exact ⟨_, same⟩
    · exact ⟨_, result⟩
  have leadsNow := (formatted.place_eq path).trans leads
  refine ⟨_, FileTree.write_of_content leadsNow holdsNow _, ?_⟩
  constructor
  · intro other
    rw [FileTree.place_insert holdsNow, formatted.place_eq]
  · intro other member otherPlace otherLeads
    rw [FileTree.contentAt_insert holdsNow]
    split
    · next here => rw [here, holds, Except.map]
    · next differs =>
      obtain rfl | isEarlier := List.mem_cons.mp member
      · rw [leads] at otherLeads
        exact absurd (Except.ok.inj otherLeads).symm differs
      · exact formatted.listed other isEarlier otherPlace otherLeads
  · intro other beside
    have differs : other ≠ place := by
      rintro rfl
      exact beside path (by simp) leads
    rw [FileTree.contentAt_insert holdsNow, if_neg differs]
    apply formatted.others
    intro path member
    exact beside path (List.mem_cons_of_mem _ member)

end HasFormatted

/-- A dry run changes nothing, and succeeds where nothing would change. -/
theorem run_carryOut_dry (isColored : Bool) (plan : List (String × Formatting))
    (tree : FileTree) :
    ∃ output,
      (carryOut isColored true plan : StateM FileTree Output).run tree =
          (output, tree) ∧
        (output.exitCode = 0 ↔ ∀ entry ∈ plan, entry.2 = .unchanged) := by
  induction plan with
  | nil => exact ⟨.nothing, rfl, by simp [Output.nothing]⟩
  | cons entry others inductionHypothesis =>
      obtain ⟨path, formatting⟩ := entry
      obtain ⟨output, run, succeeds⟩ := inductionHypothesis
      cases formatting with
      | unchanged => exact ⟨output, run, by simpa using succeeds⟩
      | hasSyntaxErrors =>
          refine ⟨skipped isColored path ++ output, ?_, ?_⟩
          · simp only [carryOut, StateT.run_bind]
            rw [run]
            rfl
          · simp [Output.exitCode_append, skipped, Output.unsuccessful]
      | changed text =>
          refine ⟨announced isColored path ++ output, ?_, ?_⟩
          · simp only [carryOut, if_true, StateT.run_bind]
            rw [run]
            rfl
          · simp [Output.exitCode_append, announced, Output.unsuccessful]

/-- Going through the files formats each of them. -/
theorem run_carryOut (isColored : Bool) {before : FileTree}
    {sources : List SourceFile}
    (reads : ∀ source ∈ sources, before.read source.path = .ok source.text)
    {paths : List String} {tree : FileTree}
    (formatted : HasFormatted indent paths before tree) :
    ∃ output after,
      (carryOut isColored false (sources.map (planned indent)) :
          StateM FileTree Output).run tree = (output, after) ∧
        HasFormatted indent (sources.reverse.map SourceFile.path ++ paths)
            before after ∧
          (output.exitCode = 0 ↔ ∀ source ∈ sources,
            (Compilation.ofText source.text).hasSyntaxErrors = false) := by
  induction sources generalizing paths tree with
  | nil => exact ⟨.nothing, tree, rfl, formatted, by simp [Output.nothing]⟩
  | cons source others inductionHypothesis =>
      obtain ⟨readsFirst, readsOthers⟩ := List.forall_mem_cons.mp reads
      obtain ⟨place, leads, holds⟩ := FileTree.read_eq_ok.mp readsFirst
      simp only [List.map_cons, List.reverse_cons, List.map_append,
        List.append_assoc, List.forall_mem_cons, planned, List.map_nil,
        List.cons_append, List.nil_append]
      rcases ofText_cases indent source.text with
        ⟨broken, step⟩ | ⟨clean, ⟨same, step⟩ | ⟨differs, step⟩⟩
      · obtain ⟨output, after, run, formattedAfter, succeeds⟩ :=
          inductionHypothesis readsOthers
            (formatted.keep leads holds (resultText_of_broken broken))
        refine ⟨skipped isColored source.path ++ output, after, ?_,
          formattedAfter, ?_⟩
        · simp only [step, carryOut, StateT.run_bind]
          rw [run]
          rfl
        · simp [Output.exitCode_append, skipped, Output.unsuccessful, broken]
      · obtain ⟨output, after, run, formattedAfter, succeeds⟩ :=
          inductionHypothesis readsOthers (formatted.keep leads holds same)
        refine ⟨output, after, ?_, formattedAfter, ?_⟩
        · simpa only [step, carryOut] using run
        · simpa [clean] using succeeds
      · obtain ⟨changed, writes, formattedNow⟩ := formatted.write leads holds
        obtain ⟨output, after, run, formattedAfter, succeeds⟩ :=
          inductionHypothesis readsOthers formattedNow
        refine ⟨FormatCommand.formatted isColored source.path ++ output, after,
          ?_, formattedAfter, ?_⟩
        · simp only [step, carryOut, Bool.false_eq_true, if_false,
            StateT.run_bind]
          rw [FileTree.run_write writes]
          change StateT.run _ changed = _
          simp only [StateT.run_bind]
          rw [run]
          rfl
        · simpa [Output.exitCode_append, FormatCommand.formatted, Output.line,
            clean] using succeeds

/-- Only which files are listed matters, not in which order or how often. -/
theorem HasFormatted.congr {before after : FileTree}
    {paths others : List String}
    (formatted : HasFormatted indent paths before after)
    (same : ∀ path, path ∈ paths ↔ path ∈ others) :
    HasFormatted indent others before after where
  place_eq := formatted.place_eq
  listed path member := formatted.listed path ((same path).mpr member)
  others place beside :=
    formatted.others place fun path member => beside path ((same path).mp member)

/-- Listed files without syntax errors have their layout afterwards.  All other files
hold what they held, and every path leads where it led. -/
structure WritesLayouts (indent : String) (paths : List String)
    (before after : FileTree) : Prop where
  place_eq : ∀ path, after.place path = before.place path
  clean : ∀ path ∈ paths, ∀ place text, before.place path = .ok place →
    before.contentAt place = .ok text →
      (Compilation.ofText text).hasSyntaxErrors = false →
        ∃ layout, (Compilation.ofText text).format? indent = some layout ∧
          after.contentAt place = .ok layout
  broken : ∀ path ∈ paths, ∀ place text, before.place path = .ok place →
    before.contentAt place = .ok text →
      (Compilation.ofText text).hasSyntaxErrors = true →
        after.contentAt place = .ok text
  others : ∀ place, (∀ path ∈ paths, before.place path ≠ .ok place) →
    after.contentAt place = before.contentAt place

theorem HasFormatted.writesLayouts {before after : FileTree}
    {paths : List String} (formatted : HasFormatted indent paths before after) :
    WritesLayouts indent paths before after where
  place_eq := formatted.place_eq
  clean path member place text leads holds isClean := by
    refine ⟨_, format?_eq_some_resultText isClean, ?_⟩
    rw [formatted.listed path member place leads, holds, Except.map]
  broken path member place text leads holds isBroken := by
    rw [formatted.listed path member place leads, holds, Except.map,
      resultText_of_broken isBroken]
  others := formatted.others

/-- What the command does to a tree of files, and when it succeeds. -/
structure FormatsFiles (indent : String) (paths : List String) (isDry : Bool)
    (before after : FileTree) (output : Output) : Prop where
  /-- An unreadable file stops the command before it changes any. -/
  unreadable : (∃ path ∈ paths, ∃ cause, before.read path = .error cause) →
    output.exitCode ≠ 0 ∧ after = before
  written : isDry = false →
    (∀ path ∈ paths, ∃ text, before.read path = .ok text) →
      WritesLayouts indent paths before after ∧
        (output.exitCode = 0 ↔ ∀ path ∈ paths, ∀ text,
          before.read path = .ok text →
            (Compilation.ofText text).hasSyntaxErrors = false)
  /-- A dry run succeeds where every file already has its layout. -/
  dry : isDry = true →
    (∀ path ∈ paths, ∃ text, before.read path = .ok text) →
      after = before ∧
        (output.exitCode = 0 ↔ ∀ path ∈ paths, ∀ text,
          before.read path = .ok text →
            (Compilation.ofText text).hasSyntaxErrors = false ∧
              (Compilation.ofText text).format? indent = some text)

section

variable {before : FileTree} {sources : List SourceFile}

/-- What holds of the texts that were read is what holds of the texts of the
files. -/
theorem forall_sources_iff
    (reads : ∀ source ∈ sources, before.read source.path = .ok source.text)
    (Holds : String → Prop) :
    (∀ source ∈ sources, Holds source.text) ↔
      ∀ path ∈ sources.map SourceFile.path, ∀ text,
        before.read path = .ok text → Holds text := by
  constructor
  · intro all path member text readsText
    obtain ⟨source, isSource, rfl⟩ := List.mem_map.mp member
    rw [reads source isSource] at readsText
    exact Except.ok.inj readsText ▸ all source isSource
  · intro all source isSource
    exact all source.path (List.mem_map_of_mem isSource) source.text
      (reads source isSource)

/-- Behind the reading of the files, the command goes through what was read. -/
theorem run_of_readAll {isColored isDry : Bool} {settings : Settings}
    {paths : List String}
    (read : (SourceFile.readAll paths : StateM FileTree _).run before =
      (.ok sources, before)) :
    (run isColored settings paths isDry : StateM FileTree Output).run before =
      (carryOut isColored isDry (sources.map (planned settings.indent)) :
        StateM FileTree Output).run before := by
  rw [run, StateT.run_bind, read]
  rfl

theorem run_of_unreadable {isColored isDry : Bool} {settings : Settings}
    {paths : List String} {error : SourceError}
    (read : (SourceFile.readAll paths : StateM FileTree _).run before =
      (.error error, before)) :
    (run isColored settings paths isDry : StateM FileTree Output).run before =
      (error.output, before) := by
  rw [run, StateT.run_bind, read]
  rfl

end

theorem exitCode_output (error : SourceError) : error.output.exitCode = 1 := by
  cases error <;> rfl

section

variable {paths : List String} {before : FileTree}

theorem run_dry (isColored : Bool) (settings : Settings)
    (readable : ∀ path ∈ paths, ∃ text, before.read path = .ok text) :
    ∃ output,
      (run isColored settings paths true : StateM FileTree Output).run before =
          (output, before) ∧
        (output.exitCode = 0 ↔ ∀ path ∈ paths, ∀ text,
          before.read path = .ok text →
            (Compilation.ofText text).hasSyntaxErrors = false ∧
              (Compilation.ofText text).format? settings.indent =
                some text) := by
  obtain ⟨sources, read, rfl, reads⟩ :=
    SourceFile.run_readAll_of_readable readable
  obtain ⟨output, ran, succeeds⟩ := run_carryOut_dry isColored
    (sources.map (planned settings.indent)) before
  refine ⟨output, (run_of_readAll read).trans ran, ?_⟩
  rw [succeeds, List.forall_mem_map, ← forall_sources_iff reads]
  apply forall₂_congr
  intro source _
  rw [planned, ofText_eq_unchanged_iff]
  constructor
  · intro same
    exact ⟨clean_of_format? same, same⟩
  · exact And.right

theorem run_written (isColored : Bool) (settings : Settings)
    (readable : ∀ path ∈ paths, ∃ text, before.read path = .ok text) :
    ∃ output after,
      (run isColored settings paths false : StateM FileTree Output).run before =
          (output, after) ∧
        WritesLayouts settings.indent paths before after ∧
          (output.exitCode = 0 ↔ ∀ path ∈ paths, ∀ text,
            before.read path = .ok text →
              (Compilation.ofText text).hasSyntaxErrors = false) := by
  obtain ⟨sources, read, rfl, reads⟩ :=
    SourceFile.run_readAll_of_readable readable
  obtain ⟨output, after, ran, formatted, succeeds⟩ :=
    run_carryOut isColored reads (hasFormatted_nil settings.indent before)
  refine ⟨output, after, (run_of_readAll read).trans ran, ?_, ?_⟩
  · exact (formatted.congr (by simp)).writesLayouts
  · rw [succeeds, ← forall_sources_iff reads]

theorem run_unreadable (isColored isDry : Bool) (settings : Settings)
    (unreadable : ∃ path ∈ paths, ∃ cause, before.read path = .error cause) :
    ∃ output,
      (run isColored settings paths isDry : StateM FileTree Output).run before =
          (output, before) ∧
        output.exitCode ≠ 0 := by
  obtain ⟨error, read⟩ := SourceFile.run_readAll_of_unreadable unreadable
  refine ⟨error.output, run_of_unreadable read, ?_⟩
  rw [exitCode_output]
  exact Nat.one_ne_zero

/-- Formatting touches the listed files without syntax errors only, and these only
when every listed file can be read. -/
theorem run_formats (isColored : Bool) (settings : Settings)
    (paths : List String) (isDry : Bool) (before : FileTree) :
    ∃ output after,
      (run isColored settings paths isDry : StateM FileTree Output).run before =
          (output, after) ∧
        FormatsFiles settings.indent paths isDry before after output := by
  by_cases readable : ∀ path ∈ paths, ∃ text, before.read path = .ok text
  · have noneFails : ¬∃ path ∈ paths, ∃ cause,
        before.read path = .error cause := by
      rw [before.unreadable_iff, Classical.not_not]
      exact readable
    cases isDry with
    | true =>
        obtain ⟨output, ran, succeeds⟩ := run_dry isColored settings readable
        exact ⟨output, before, ran, fun fails => absurd fails noneFails,
          fun isWritten => by contradiction, fun _ _ => ⟨rfl, succeeds⟩⟩
    | false =>
        obtain ⟨output, after, ran, written, succeeds⟩ :=
          run_written isColored settings readable
        exact ⟨output, after, ran, fun fails => absurd fails noneFails,
          fun _ _ => ⟨written, succeeds⟩, fun isDry => by contradiction⟩
  · obtain ⟨output, ran, fails⟩ := run_unreadable isColored isDry settings
      ((before.unreadable_iff paths).mpr readable)
    exact ⟨output, before, ran, fun _ => ⟨fails, rfl⟩,
      fun _ all => absurd all readable, fun _ all => absurd all readable⟩

end

end FormatCommand
end WorkflowLang
