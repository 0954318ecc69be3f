import WorkflowLang.Proofs.Checks.Reordering
import WorkflowLang.Proofs.Document.Marks

/-!
# The limit of secrets

The check of secrets keeps two accounts.  One is of the list it goes through and
begins anew with each list: an entry that its list has named before is reported.  The
other is of the whole document: it grows with every new name, in whatever list, and
the entry with the first name beyond the limit is reported, once.  So the second
account sees the lists as one, and the first knows nothing of it
(`Checks.reportsSecrets`).
-/

namespace WorkflowLang

namespace Checks

/-- The report that there are too many secrets. -/
def secretExcess (secret : StringValue) : Diagnostic :=
  ⟨.tooManySecrets, secret.span⟩

/-- The report that a list has named a secret before. -/
def secretRepetition (secret : StringValue) : Diagnostic :=
  ⟨.duplicateSecrets secret.value, secret.span⟩

/-- The entries whose names are new to a document that has used some secrets. -/
def newSecrets (known : List String) (secrets : List StringValue) :
    List StringValue :=
  unmarked (markAmong known StringValue.value secrets)

/-! ## What is counted -/

theorem newSecrets_known {known : List String} {secret : StringValue}
    (isKnown : secret.value ∈ known) (others : List StringValue) :
    newSecrets known (secret :: others) = newSecrets known others := by
  rw [newSecrets, unmarked_known isKnown, newSecrets]

theorem newSecrets_fresh {known : List String} {secret : StringValue}
    (isNew : secret.value ∉ known) (others : List StringValue) :
    newSecrets known (secret :: others) =
      secret :: newSecrets (secret.value :: known) others := by
  rw [newSecrets, unmarked_fresh isNew, newSecrets]

theorem newSecrets_append (known : List String)
    (secrets others : List StringValue) :
    newSecrets known (secrets ++ others) =
      newSecrets known secrets ++
        newSecrets (usedAfter known secrets) others := by
  have same (name : String) :
      name ∈ secrets.map StringValue.value ++ known ↔
        name ∈ usedAfter known secrets := by
    rw [usedAfter_eq_union, List.mem_union_iff, List.mem_reverse,
      List.mem_append]
  rw [newSecrets, markAmong_append, markAmong_congr same, unmarked,
    List.filterMap_append]
  rfl

/-- What a document has used grows by the entries with new names. -/
theorem length_usedAfter (known : List String) (secrets : List StringValue) :
    (usedAfter known secrets).length =
      known.length + (newSecrets known secrets).length := by
  induction secrets generalizing known with
  | nil => rfl
  | cons secret others inductionHypothesis =>
      change (usedAfter (known.insert secret.value) others).length = _
      rw [inductionHypothesis]
      by_cases isKnown : secret.value ∈ known
      · rw [List.insert_of_mem isKnown, newSecrets_known isKnown]
      · rw [List.insert_of_not_mem isKnown, newSecrets_fresh isKnown,
          List.length_cons, List.length_cons]
        omega

/-! ## The limit -/

/-- What has been reported is not reported again. -/
theorem filter_secretDiagnostics_noticed (known seen : List String)
    (secrets : List StringValue) :
    (secretDiagnostics true known seen secrets).filter
      (fun diagnostic => diagnostic.problem = .tooManySecrets) = [] := by
  rw [List.filter_eq_nil_iff]
  intro diagnostic member isExcess
  refine tooManySecrets_notMem known seen secrets ?_
  exact List.mem_map.mpr ⟨diagnostic, member, of_decide_eq_true isExcess⟩

theorem filter_secretListDiagnostics_noticed (known : List String)
    (lists : List (List StringValue)) :
    (secretListDiagnostics true known lists).filter
      (fun diagnostic => diagnostic.problem = .tooManySecrets) = [] := by
  induction lists generalizing known with
  | nil => rfl
  | cons secrets others inductionHypothesis =>
      rw [secretListDiagnostics, List.filter_append,
        filter_secretDiagnostics_noticed, Bool.true_or, inductionHypothesis,
        List.append_nil]

/-- Before the report as many names are new as the limit allows. -/
theorem filter_secretDiagnostics_counting (seen : List String)
    {known : List String} (within : known.length ≤ maximumSecrets)
    (secrets : List StringValue) :
    (secretDiagnostics false known seen secrets).filter
        (fun diagnostic => diagnostic.problem = .tooManySecrets) =
      ((newSecrets known secrets)[maximumSecrets - known.length]?.map
        secretExcess).toList := by
  induction secrets generalizing known seen with
  | nil => rfl
  | cons secret others inductionHypothesis =>
      have notExcess : (if seen.contains secret.value then
          [(⟨.duplicateSecrets secret.value, secret.span⟩ : Diagnostic)]
          else []).filter
            (fun diagnostic => diagnostic.problem = .tooManySecrets) = [] := by
        split <;> simp
      simp only [secretDiagnostics, List.filter_append, notExcess,
        List.nil_append, Bool.false_or]
      by_cases isKnown : secret.value ∈ known
      · have behind := inductionHypothesis (secret.value :: seen) within
        rw [newSecrets_known isKnown]
        simpa [isKnown] using behind
      · rw [newSecrets_fresh isKnown]
        by_cases isLast : known.length = maximumSecrets
        · have behind := filter_secretDiagnostics_noticed
            (secret.value :: known) (secret.value :: seen) others
          simpa [isKnown, isLast, secretExcess] using behind
        · have below : (secret.value :: known).length ≤ maximumSecrets := by
            rw [List.length_cons]
            omega
          have index : maximumSecrets - known.length =
              maximumSecrets - (secret.value :: known).length + 1 := by
            rw [List.length_cons] at below ⊢
            omega
          have behind := inductionHypothesis (secret.value :: seen) below
          rw [index, List.getElem?_cons_succ]
          have notBeyond : ¬maximumSecrets < known.length + 1 :=
            Nat.not_lt.mpr below
          simpa [isKnown, notBeyond] using behind

/-- The lists are counted as if they were one. -/
theorem filter_secretListDiagnostics_counting {known : List String}
    (within : known.length ≤ maximumSecrets)
    (lists : List (List StringValue)) :
    (secretListDiagnostics false known lists).filter
        (fun diagnostic => diagnostic.problem = .tooManySecrets) =
      ((newSecrets known lists.flatten)[maximumSecrets - known.length]?.map
        secretExcess).toList := by
  induction lists generalizing known with
  | nil => rfl
  | cons secrets others inductionHypothesis =>
      have grows := length_usedAfter known secrets
      rw [secretListDiagnostics, List.filter_append,
        filter_secretDiagnostics_counting [] within,
        noticesSecrets_secretDiagnostics [] secrets fun _ => within,
        List.flatten_cons, newSecrets_append]
      by_cases beyond : maximumSecrets < (usedAfter known secrets).length
      · have here : maximumSecrets - known.length <
            (newSecrets known secrets).length := by
          omega
        rw [List.getElem?_append_left here]
        simp [beyond, filter_secretListDiagnostics_noticed]
      · have behind := inductionHypothesis (Nat.le_of_not_lt beyond)
        have passed : (newSecrets known secrets).length ≤
            maximumSecrets - known.length := by
          omega
        have index : maximumSecrets - known.length -
            (newSecrets known secrets).length =
              maximumSecrets - (usedAfter known secrets).length := by
          omega
        rw [List.getElem?_append_right passed, index, ← behind,
          List.getElem?_eq_none passed]
        rw [decide_eq_false beyond]
        rfl

/-! ## Repetitions -/

theorem filter_secretDiagnostics_repeated (isNoticed : Bool)
    (known seen : List String) (secrets : List StringValue) :
    (secretDiagnostics isNoticed known seen secrets).filter
        (fun diagnostic => diagnostic.problem ≠ .tooManySecrets) =
      (marked (markAmong seen StringValue.value secrets)).map
        secretRepetition := by
  induction secrets generalizing isNoticed known seen with
  | nil => rfl
  | cons secret others inductionHypothesis =>
      rw [secretDiagnostics, List.filter_append, List.filter_append,
        inductionHypothesis, markAmong_cons]
      have isExcess (condition : Bool) : (if condition then
          [(⟨.tooManySecrets, secret.span⟩ : Diagnostic)] else []).filter
            (fun diagnostic => diagnostic.problem ≠ .tooManySecrets) = [] := by
        cases condition <;> rfl
      rw [isExcess, List.append_nil]
      by_cases repeated : secret.value ∈ seen
      · simp [repeated, marked, secretRepetition]
      · simp [repeated, marked]

/-- Each list is looked at for itself. -/
theorem filter_secretListDiagnostics_repeated (isNoticed : Bool)
    (known : List String) (lists : List (List StringValue)) :
    (secretListDiagnostics isNoticed known lists).filter
        (fun diagnostic => diagnostic.problem ≠ .tooManySecrets) =
      lists.flatMap fun secrets =>
        (marked (markRepeated StringValue.value secrets)).map
          secretRepetition := by
  induction lists generalizing isNoticed known with
  | nil => rfl
  | cons secrets others inductionHypothesis =>
      rw [secretListDiagnostics, List.filter_append,
        filter_secretDiagnostics_repeated, inductionHypothesis, markAmong_nil,
        List.flatMap_cons]

end Checks

/-- The entries of all lists of secrets, in the order of the source. -/
def Document.secretEntries (document : Document) : List StringValue :=
  document.actions.flatMap Action.secretNames

namespace Checks

/-- What the check of secrets reports.  Names are counted in the whole document, and
the limit is reported at the entry that brings one name too many.  Besides that each
entry is reported that its own list repeats, and nothing else. -/
structure ReportsSecrets (document : Document) : Prop where
  within : (document.secretEntries.map StringValue.value).toFinset.card ≤
      maximumSecrets →
    (secrets false document).filter
      (fun diagnostic => diagnostic.problem = .tooManySecrets) = []
  beyond : maximumSecrets <
      (document.secretEntries.map StringValue.value).toFinset.card →
    ∃ before entry after, document.secretEntries = before ++ entry :: after ∧
      entry.value ∉ before.map StringValue.value ∧
      (before.map StringValue.value).toFinset.card = maximumSecrets ∧
      (secrets false document).filter
          (fun diagnostic => diagnostic.problem = .tooManySecrets) =
        [secretExcess entry]
  repeated : (secrets false document).filter
      (fun diagnostic => diagnostic.problem ≠ .tooManySecrets) =
    document.actions.flatMap fun action =>
      (marked (markRepeated StringValue.value action.secretNames)).map
        secretRepetition

theorem filter_secrets (document : Document) :
    (secrets false document).filter
        (fun diagnostic => diagnostic.problem = .tooManySecrets) =
      ((newSecrets [] document.secretEntries)[maximumSecrets]?.map
        secretExcess).toList := by
  rw [secrets, filter_secretListDiagnostics_counting (Nat.zero_le _),
    Document.secretEntries, List.flatMap_def]
  rfl

theorem length_newSecrets (secrets : List StringValue) :
    (newSecrets [] secrets).length =
      (secrets.map StringValue.value).toFinset.card := by
  rw [newSecrets, markAmong_nil, length_unmarked]

theorem reportsSecrets (document : Document) : ReportsSecrets document where
  within := by
    intro few
    rw [← length_newSecrets] at few
    rw [filter_secrets, List.getElem?_eq_none few]
    rfl
  beyond := by
    intro many
    rw [← length_newSecrets] at many
    have isThere := List.getElem?_eq_getElem many
    obtain ⟨before, after, split, -, fresh, counted⟩ :=
      exists_split_of_unmarked isThere
    refine ⟨before, _, after, split, fresh, ?_, ?_⟩
    · rw [← length_newSecrets]
      exact counted
    · rw [filter_secrets, isThere]
      rfl
  repeated := by
    rw [secrets, filter_secretListDiagnostics_repeated, List.flatMap_map]

end Checks
end WorkflowLang
