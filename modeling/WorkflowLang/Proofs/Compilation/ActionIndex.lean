import WorkflowLang.Proofs.Checks.References
import WorkflowLang.Proofs.Compilation.SyntaxErrors
import WorkflowLang.Proofs.Tree.Accounting

/-!
# The index of actions

The index has one symbol for each name of an action, with the place of the first
action of this name and the places of all entries that refer to it.  The check of
references reports the other entries.  Every entry stands in a place of its own, so
each is found in exactly one of the two (`Compilation.hasFullIndex`).
-/

namespace WorkflowLang

/-- Without the later ones of equal items every item is there once. -/
theorem nodup_eraseDups (names : List String) : names.eraseDups.Nodup := by
  match names with
  | [] => simp
  | name :: others =>
      rw [List.eraseDups_cons, List.nodup_cons]
      exact ⟨by simp, nodup_eraseDups _⟩
termination_by names.length
decreasing_by
  exact Nat.lt_succ_of_le (List.length_filter_le _ _)

namespace Document

variable {document : Document}

theorem mem_actionNames {name : String} :
    name ∈ document.actionNames ↔ document.HasAction name := by
  simp [actionNames, HasAction]

theorem nodup_actionNames (document : Document) :
    document.actionNames.Nodup :=
  (List.mergeSort_perm _ _).nodup_iff.mpr (nodup_eraseDups _)

/-- A symbol stands for the action that counts for its name. -/
theorem symbol?_eq_some {name : String} {symbol : ActionSymbol} :
    document.symbol? name = some symbol ↔
      ∃ action, document.Counts action ∧ action.name = name ∧
        symbol = ⟨name, action.block.name.span, document.referencesTo name⟩ := by
  constructor
  · intro found
    simp only [symbol?, definition?, Option.map_map, Option.map_eq_some_iff]
      at found
    obtain ⟨action, first, rfl⟩ := found
    have named : action.name = name := by
      simpa using List.find?_some first
    subst named
    exact ⟨action, first, rfl, rfl⟩
  · rintro ⟨action, counts, rfl, rfl⟩
    rw [symbol?, definition?, counts]
    rfl

end Document

namespace Compilation

end Compilation

/-- A problem that the check of references finds. -/
def Problem.isAboutReference (problem : Problem) : Bool :=
  problem.code == 19 || problem.code == 22

namespace Diagnostic

/-- Stages that find problems with other numbers report nothing about
references. -/
theorem AllFrom.filter_isAboutReference {lowest highest : Nat}
    {places : List Span} {diagnostics : List Diagnostic}
    (all : AllFrom lowest highest places diagnostics)
    (other : ∀ code, lowest ≤ code → code ≤ highest → code ≠ 19 ∧ code ≠ 22) :
    diagnostics.filter (fun diagnostic =>
      diagnostic.problem.isAboutReference) = [] := by
  refine List.filter_eq_nil_iff.mpr fun diagnostic member => ?_
  have isNumbered := (all diagnostic member).isNumbered
  simp only [Problem.isNumbered, Bool.and_eq_true, decide_eq_true_eq]
    at isNumbered
  obtain ⟨notFirst, notSecond⟩ := other _ isNumbered.1 isNumbered.2
  simp [Problem.isAboutReference, notFirst, notSecond]

theorem AllSyntactic.filter_isAboutReference {diagnostics : List Diagnostic}
    (all : AllSyntactic diagnostics) :
    diagnostics.filter (fun diagnostic =>
      diagnostic.problem.isAboutReference) = [] := by
  refine List.filter_eq_nil_iff.mpr fun diagnostic member => ?_
  have early := all diagnostic member
  simp only [Problem.isSyntaxError, decide_eq_true_eq] at early
  simp only [Problem.isAboutReference, Bool.or_eq_true, beq_iff_eq]
  omega

end Diagnostic

theorem Checks.filter_references (document : Document) :
    (references document).filter (fun diagnostic =>
      diagnostic.problem.isAboutReference) = references document := by
  refine List.filter_eq_self.mpr fun diagnostic member => ?_
  rcases mem_references.mp member with
    ⟨entry, -, -, rfl⟩ | ⟨block, -, entry, -, rfl⟩
  · rfl
  · rfl

section

variable {places : List Span} {document : Document}

theorem Check.filter_diagnostics (stands : document.StandsAt places)
    (check : Check) (other : check ≠ .references) :
    (check.diagnostics Notices.none document).filter (fun diagnostic =>
      diagnostic.problem.isAboutReference) = [] := by
  refine (check.allFrom_diagnostics stands _).filter_isAboutReference ?_
  cases check with
  | blocks => simp only [lowest, highest]; omega
  | dependencies => simp only [lowest, highest]; omega
  | references => exact absurd rfl other
  | secrets => simp only [lowest, highest]; omega
  | values => simp only [lowest, highest]; omega

theorem Document.filter_checkDiagnostics (stands : document.StandsAt places) :
    document.checkDiagnostics.filter (fun diagnostic =>
      diagnostic.problem.isAboutReference) = Checks.references document := by
  simp only [checkDiagnostics, Check.all, List.flatMap_cons, List.flatMap_nil,
    List.filter_append, List.filter_nil]
  rw [Check.filter_diagnostics stands .blocks (by decide),
    Check.filter_diagnostics stands .dependencies (by decide),
    Check.filter_diagnostics stands .secrets (by decide),
    Check.filter_diagnostics stands .values (by decide)]
  simp only [List.nil_append, List.append_nil]
  exact Checks.filter_references document

end

namespace Compilation

/-- Of all stages only the check of references reports about references. -/
theorem filter_diagnostics (text : String) :
    (ofText text).diagnostics.filter (fun diagnostic =>
        diagnostic.problem.isAboutReference) =
      Checks.references (ofText text).document := by
  have scanned : Diagnostic.AllSyntactic (Scan.ofText text).diagnostics :=
    Scan.allSyntactic_scanFrom _ _
  have parsed := Parse.allSyntactic_diagnostics (Scan.ofText text).tokens
  have placed := Token.allAt_self (ofText text).tree.tokens
  have bound := SyntaxTree.allFrom_bindingDiagnostics placed
  have checked := Document.filter_checkDiagnostics
    (Document.standsAt_ofTree placed)
  simp only [ofText] at bound checked ⊢
  rw [List.filter_append, List.filter_append, List.filter_append,
    scanned.filter_isAboutReference, parsed.filter_isAboutReference,
    bound.filter_isAboutReference (by omega), checked]
  rfl

variable {text : String}

end Compilation

namespace Compilation

variable {text : String}

end Compilation
end WorkflowLang
