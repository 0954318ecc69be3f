import WorkflowLang.Proofs.Checks.Cycles
import WorkflowLang.Proofs.Checks.Relocation
import Mathlib.Data.List.Lattice
import Mathlib.Data.List.Nodup
import Mathlib.Data.List.Perm.Subperm

/-!
# What is wrong, in whatever order

The checks go through the blocks of a document one after the other, and they remember
which names and secrets they have met.  Where no two blocks have one name, the order
does not matter: what is counted is counted in the end, what is looked up is found
anywhere, and whether needs form a cycle is a question about the graph.  Only which
entry is found to close a cycle depends on the order
(`Document.Reorders.agree_checkDiagnostics`).
-/

namespace WorkflowLang

open Diagnostic (problems)

namespace Problem

variable {problem : Problem} {isNoticed : Bool} {limit number final : Nat}

/-- A problem that is found once, when a number is beyond a limit. -/
def beyond (problem : Problem) (isNoticed : Bool) (limit number : Nat) :
    List Problem :=
  if isNoticed = false ∧ limit < number then [problem] else []

theorem beyond_of_le (within : isNoticed = false → number ≤ limit) :
    problem.beyond isNoticed limit number = [] := by
  rw [beyond, if_neg]
  rintro ⟨unnoticed, excess⟩
  exact absurd excess (Nat.not_lt.mpr (within unnoticed))

theorem le_of_unnoticed (isNoticed : Bool) (limit number : Nat) :
    (isNoticed || !isNoticed && decide (limit < number)) = false →
      number ≤ limit := by
  cases isNoticed <;> simp

/-- A number that only grows is found to be beyond its limit once. -/
theorem beyond_append (grows : number ≤ final) :
    problem.beyond isNoticed limit number ++
        problem.beyond (isNoticed || !isNoticed && decide (limit < number)) limit
          final =
      problem.beyond isNoticed limit final := by
  unfold beyond
  cases isNoticed with
  | true => simp
  | false =>
      by_cases excess : limit < number
      · have still : limit < final := Nat.lt_of_lt_of_le excess grows
        simp [excess, still]
      · simp [excess]

def isCircularDependency : Problem → Bool
  | .circularDependency _ => true
  | _ => false

/-- The same problems in some order, where of circular dependencies it only matters
whether there is one. -/
structure Agree (first second : List Problem) : Prop where
  others : (first.filter fun problem => !problem.isCircularDependency).Perm
    (second.filter fun problem => !problem.isCircularDependency)
  circular : first.any isCircularDependency = second.any isCircularDependency

namespace Agree

variable {first second : List Problem}

theorem of_perm (same : first.Perm second) : Agree first second where
  others := same.filter _
  circular := same.any_eq

theorem append {front otherFront : List Problem}
    (fronts : Agree front otherFront) (rests : Agree first second) :
    Agree (front ++ first) (otherFront ++ second) where
  others := by
    rw [List.filter_append, List.filter_append]
    exact fronts.others.append rests.others
  circular := by
    rw [List.any_append, List.any_append, fronts.circular, rests.circular]

theorem flatMap {Part : Type} {found otherFound : Part → List Problem}
    {parts : List Part}
    (agree : ∀ part ∈ parts, Agree (found part) (otherFound part)) :
    Agree (parts.flatMap found) (parts.flatMap otherFound) := by
  induction parts with
  | nil => exact of_perm (List.Perm.refl _)
  | cons part others inductionHypothesis =>
      obtain ⟨here, behind⟩ := List.forall_mem_cons.mp agree
      exact here.append (inductionHypothesis behind)

end Agree

end Problem

/-! ## Documents in another order -/

theorem DocumentBlock.name_mapTokens (view : Token → Token)
    (block : DocumentBlock) : (block.mapTokens view).name = block.name := by
  cases block <;> rfl

def DocumentBlock.isAction : DocumentBlock → Bool
  | .workflow _ => false
  | .action _ => true

namespace Document

/-- Documents with the same workflows and actions in some order, at some places. -/
structure Reorders (first second : Document) : Prop where
  workflows : (first.mapTokens Token.unplaced).workflows.Perm
    (second.mapTokens Token.unplaced).workflows
  actions : (first.mapTokens Token.unplaced).actions.Perm
    (second.mapTokens Token.unplaced).actions

def blockNames (document : Document) : List String :=
  document.blocks.map DocumentBlock.name

theorem nodup_map_actionName {document : Document}
    (distinct : document.blockNames.Nodup) :
    (document.actions.map Action.name).Nodup := by
  have grouped := (document.perm_blocks.map DocumentBlock.name).nodup_iff.mp
    distinct
  rw [List.map_append, List.map_map, List.map_map] at grouped
  exact (List.nodup_append.mp grouped).2.1

namespace Reorders

variable {first second : Document} (reorders : first.Reorders second)

include reorders

theorem blocks : (first.blocks.map (DocumentBlock.mapTokens Token.unplaced)).Perm
    (second.blocks.map (DocumentBlock.mapTokens Token.unplaced)) := by
  have moved (document : Document) :
      (document.blocks.map (DocumentBlock.mapTokens Token.unplaced)).Perm
        ((document.mapTokens Token.unplaced).workflows.map
            DocumentBlock.workflow ++
          (document.mapTokens Token.unplaced).actions.map
            DocumentBlock.action) := by
    have grouped := document.perm_blocks.map
      (DocumentBlock.mapTokens Token.unplaced)
    rw [List.map_append, List.map_map, List.map_map] at grouped
    rw [mapTokens, List.map_map, List.map_map]
    exact grouped
  have grouped := (reorders.workflows.map DocumentBlock.workflow).append
    (reorders.actions.map DocumentBlock.action)
  exact (moved first).trans (grouped.trans (moved second).symm)

/-- What is read off the blocks of both, whatever their places, is the same up to
order. -/
theorem map_blocks {Value : Type} (read : DocumentBlock → Value)
    (unmoved : ∀ block : DocumentBlock,
      read (block.mapTokens Token.unplaced) = read block) :
    (first.blocks.map read).Perm (second.blocks.map read) := by
  have same := reorders.blocks.map read
  simpa only [List.map_map, Function.comp_def, unmoved] using same

theorem map_actions {Value : Type} (read : Action → Value)
    (unmoved : ∀ action : Action,
      read (action.mapTokens Token.unplaced) = read action) :
    (first.actions.map read).Perm (second.actions.map read) := by
  have same := reorders.actions.map read
  simpa only [mapTokens, List.map_map, Function.comp_def, unmoved] using same

theorem blockNames : first.blockNames.Perm second.blockNames :=
  reorders.map_blocks _ (DocumentBlock.name_mapTokens Token.unplaced)

end Reorders

end Document

namespace Checks

/-! ## Names of blocks -/

/-- An action with a name of its own is counted. -/
theorem problems_blockDiagnostics_action (isNoticed : Bool)
    {seen : List String} {declared : Action} (fresh : declared.name ∉ seen)
    (count : Nat) (others : List DocumentBlock) :
    problems (blockDiagnostics isNoticed seen count (.action declared :: others)) =
      Problem.tooManyActions.beyond isNoticed maximumActions (count + 1) ++
        problems (blockDiagnostics
          (isNoticed || !isNoticed && decide (maximumActions < count + 1))
          (declared.name :: seen) (count + 1) others) := by
  rw [blockDiagnostics, if_neg (by simpa using fresh), Problem.beyond]
  cases isNoticed with
  | true => simp
  | false => by_cases excess : maximumActions < count + 1 <;> simp [excess]

/-- Blocks with names of their own are only counted. -/
theorem problems_blockDiagnostics_of_nodup {isNoticed : Bool}
    {seen : List String} {count : Nat} {blocks : List DocumentBlock}
    (distinct : (blocks.map DocumentBlock.name).Nodup)
    (fresh : ∀ block ∈ blocks, block.name ∉ seen)
    (within : isNoticed = false → count ≤ maximumActions) :
    problems (blockDiagnostics isNoticed seen count blocks) =
      Problem.tooManyActions.beyond isNoticed maximumActions
        (count + blocks.countP DocumentBlock.isAction) := by
  induction blocks generalizing isNoticed seen count with
  | nil => exact (Problem.beyond_of_le within).symm
  | cons block others inductionHypothesis =>
      obtain ⟨differs, othersDistinct⟩ := List.nodup_cons.mp distinct
      obtain ⟨isNew, othersNew⟩ := List.forall_mem_cons.mp fresh
      have othersFresh : ∀ other ∈ others, other.name ∉ block.name :: seen := by
        intro other isOther
        have isDifferent : other.name ≠ block.name := by
          intro same
          exact differs (same ▸ List.mem_map_of_mem isOther)
        simp [isDifferent, othersNew other isOther]
      cases block with
      | workflow declared =>
          have unseen : declared.name ∉ seen := isNew
          have behind := inductionHypothesis othersDistinct othersFresh within
          simpa [blockDiagnostics, unseen, DocumentBlock.isAction,
            DocumentBlock.name] using behind
      | action declared =>
          have unseen : declared.name ∉ seen := isNew
          have behind := inductionHypothesis othersDistinct othersFresh
            (Problem.le_of_unnoticed isNoticed maximumActions (count + 1))
          have total : count + (DocumentBlock.action declared ::
              others).countP DocumentBlock.isAction =
                count + 1 + others.countP DocumentBlock.isAction := by
            rw [List.countP_cons_of_pos rfl]
            omega
          rw [problems_blockDiagnostics_action isNoticed unseen, total,
            ← Problem.beyond_append (Nat.le_add_right (count + 1) _), ← behind]
          rfl

theorem problems_blocks_reordered {first second : Document}
    (reorders : first.Reorders second) (distinct : first.blockNames.Nodup) :
    problems (blocks false first) = problems (blocks false second) := by
  have sameCount : first.blocks.countP DocumentBlock.isAction =
      second.blocks.countP DocumentBlock.isAction := by
    have kinds := reorders.map_blocks DocumentBlock.isAction
      fun block => by cases block <;> rfl
    have counted := kinds.countP_eq id
    rw [List.countP_map, List.countP_map] at counted
    exact counted
  have otherDistinct := reorders.blockNames.nodup_iff.mp distinct
  rw [blocks, blocks, problems_blockDiagnostics_of_nodup distinct (by simp)
    (by simp), problems_blockDiagnostics_of_nodup otherDistinct (by simp)
    (by simp), sameCount]

/-! ## References -/

/-- Of the declared names only matters which they are. -/
theorem referenceDiagnostics_congr {declared others : List String}
    (same : ∀ name, name ∈ declared ↔ name ∈ others) (seen : List String)
    (references : List StringValue) :
    referenceDiagnostics declared seen references =
      referenceDiagnostics others seen references := by
  induction references generalizing seen with
  | nil => rfl
  | cons reference rest inductionHypothesis =>
      simp only [referenceDiagnostics, List.contains_iff_mem, same,
        inductionHypothesis]

theorem problems_references_reordered {first second : Document}
    (reorders : first.Reorders second) :
    (problems (references first)).Perm (problems (references second)) := by
  have names : (first.actions.map Action.name).Perm
      (second.actions.map Action.name) := reorders.map_actions _ fun _ => rfl
  have declared : ∀ name, name ∈ first.actions.map Action.name ↔
      name ∈ second.actions.map Action.name := fun _ => names.mem_iff
  have lists := reorders.map_blocks (fun block =>
    problems (referenceDiagnostics (second.actions.map Action.name) []
      block.references)) fun block => by
        rw [DocumentBlock.references_mapTokens,
          problems_referenceDiagnostics_map]
  rw [references, references, Diagnostic.problems_flatMap,
    Diagnostic.problems_flatMap]
  simp only [referenceDiagnostics_congr declared]
  exact lists.flatten

/-! ## Secrets -/

/-- What a document has used after a list of secrets. -/
def usedAfter (known : List String) (secrets : List StringValue) :
    List String :=
  secrets.foldl (fun names secret => names.insert secret.value) known

theorem usedAfter_eq_union (known : List String)
    (secrets : List StringValue) :
    usedAfter known secrets =
      (secrets.map StringValue.value).reverse ∪ known := by
  rw [usedAfter, List.foldl_eq_foldr_reverse, ← List.map_reverse,
    List.union_def, List.foldr_map]

theorem length_le_length_usedAfter (known : List String)
    (secrets : List StringValue) :
    known.length ≤ (usedAfter known secrets).length := by
  rw [usedAfter_eq_union]
  exact (List.suffix_union_right _ known).length_le

theorem usedAfter_append (known : List String)
    (secrets others : List StringValue) :
    usedAfter known (secrets ++ others) =
      usedAfter (usedAfter known secrets) others :=
  List.foldl_append

/-- Which secrets are used has nothing to do with the order of their entries. -/
theorem usedAfter_perm (known : List String)
    {secrets others : List StringValue}
    (same : (secrets.map StringValue.value).Perm
      (others.map StringValue.value)) :
    (usedAfter known secrets).Perm (usedAfter known others) := by
  have backwards := (List.reverse_perm _).trans
    (same.trans (List.reverse_perm (others.map StringValue.value)).symm)
  rw [usedAfter_eq_union, usedAfter_eq_union]
  exact backwards.union_right known

/-- The secrets that a list repeats. -/
def repeatedSecrets (secrets : List StringValue) : List Problem :=
  problems (secretDiagnostics true [] [] secrets)

/-- Whether an entry is repeated has nothing to do with other lists. -/
theorem secretDiagnostics_noticed (known others seen : List String)
    (secrets : List StringValue) :
    secretDiagnostics true known seen secrets =
      secretDiagnostics true others seen secrets := by
  induction secrets generalizing known others seen with
  | nil => rfl
  | cons secret rest inductionHypothesis =>
      simp only [secretDiagnostics, Bool.not_true, Bool.and_false,
        Bool.or_false, Bool.false_eq_true, if_false]
      rw [inductionHypothesis (known.insert secret.value)
        (others.insert secret.value)]

/-- An entry goes beyond the limit when it is new and there are too many with it. -/
theorem isExcess_eq {isNoticed : Bool} {known : List String}
    (within : isNoticed = false → known.length ≤ maximumSecrets)
    (name : String) :
    (!known.contains name && decide (maximumSecrets < known.length + 1) &&
        !isNoticed) =
      (!isNoticed && decide (maximumSecrets < (known.insert name).length)) := by
  cases isNoticed with
  | true => simp
  | false =>
      by_cases isKnown : name ∈ known
      · simpa [isKnown] using within rfl
      · simp [isKnown]

theorem problems_excess (isNoticed : Bool) (limit number : Nat)
    (problem : Problem) (span : Span) :
    problems (if (!isNoticed && decide (limit < number)) = true then
        [⟨problem, span⟩] else []) =
      problem.beyond isNoticed limit number := by
  unfold Problem.beyond
  cases isNoticed with
  | true => rfl
  | false => by_cases excess : limit < number <;> simp [excess]

theorem problems_secretDiagnostics_perm {isNoticed : Bool}
    {known : List String} (seen : List String) (secrets : List StringValue)
    (within : isNoticed = false → known.length ≤ maximumSecrets) :
    (problems (secretDiagnostics isNoticed known seen secrets)).Perm
      (problems (secretDiagnostics true known seen secrets) ++
        Problem.tooManySecrets.beyond isNoticed maximumSecrets
          (usedAfter known secrets).length) := by
  induction secrets generalizing isNoticed known seen with
  | nil =>
      rw [usedAfter, List.foldl_nil, Problem.beyond_of_le within]
      exact List.Perm.nil
  | cons secret others inductionHypothesis =>
      have grows := length_le_length_usedAfter (known.insert secret.value) others
      have behind := inductionHypothesis (secret.value :: seen)
        (Problem.le_of_unnoticed isNoticed maximumSecrets
          (known.insert secret.value).length)
      -- With the limit noticed nothing but the repetition is left of an entry.
      simp only [secretDiagnostics, isExcess_eq within,
        Diagnostic.problems_append, problems_excess, Bool.not_true,
        Bool.and_false, Bool.or_false, Bool.false_eq_true, if_false,
        List.append_nil, List.append_assoc]
      apply List.Perm.append_left
      have final : usedAfter known (secret :: others) =
          usedAfter (known.insert secret.value) others := rfl
      rw [final, ← Problem.beyond_append grows]
      exact (behind.append_left _).trans (List.perm_append_comm_assoc _ _ _)

theorem tooManySecrets_notMem (known seen : List String)
    (secrets : List StringValue) :
    .tooManySecrets ∉ problems (secretDiagnostics true known seen secrets) := by
  induction secrets generalizing known seen with
  | nil => simp [secretDiagnostics]
  | cons secret others inductionHypothesis =>
      simp only [secretDiagnostics, Diagnostic.problems_append,
        List.mem_append, Bool.not_true, Bool.and_false, Bool.or_false,
        Bool.false_eq_true, if_false, inductionHypothesis, or_false]
      split <;> simp

/-- A list reports the limit when the secrets go beyond it there. -/
theorem noticesSecrets_secretDiagnostics {isNoticed : Bool}
    {known : List String} (seen : List String) (secrets : List StringValue)
    (within : isNoticed = false → known.length ≤ maximumSecrets) :
    noticesSecrets (secretDiagnostics isNoticed known seen secrets) =
      (!isNoticed &&
        decide (maximumSecrets < (usedAfter known secrets).length)) := by
  have found := problems_secretDiagnostics_perm seen secrets within
  have repeated := tooManySecrets_notMem known seen secrets
  rw [noticesSecrets_eq_contains, Bool.eq_iff_iff, List.contains_iff_mem,
    found.mem_iff, List.mem_append, or_iff_right repeated, Problem.beyond]
  simp

theorem problems_secretListDiagnostics_perm {isNoticed : Bool}
    {known : List String} (lists : List (List StringValue))
    (within : isNoticed = false → known.length ≤ maximumSecrets) :
    (problems (secretListDiagnostics isNoticed known lists)).Perm
      (lists.flatMap repeatedSecrets ++
        Problem.tooManySecrets.beyond isNoticed maximumSecrets
          (usedAfter known lists.flatten).length) := by
  induction lists generalizing isNoticed known with
  | nil =>
      have nothing : usedAfter known [].flatten = known := rfl
      rw [nothing, Problem.beyond_of_le within]
      exact List.Perm.nil
  | cons secrets others inductionHypothesis =>
      have grows := length_le_length_usedAfter (usedAfter known secrets)
        others.flatten
      have here := problems_secretDiagnostics_perm [] secrets within
      rw [secretDiagnostics_noticed known []] at here
      have behind := inductionHypothesis (Problem.le_of_unnoticed isNoticed
        maximumSecrets (usedAfter known secrets).length)
      rw [secretListDiagnostics,
        noticesSecrets_secretDiagnostics [] secrets within,
        Diagnostic.problems_append, List.flatten_cons, List.flatMap_cons,
        usedAfter_append, ← Problem.beyond_append grows, List.append_assoc]
      -- A report about the limit may as well come behind all repetitions.
      refine (here.append behind).trans ?_
      rw [List.append_assoc]
      exact (List.perm_append_comm_assoc _ _ _).append_left _

theorem repeatedSecrets_map (view : Token → Token)
    (secrets : List StringValue) :
    repeatedSecrets (secrets.map (StringValue.mapTokens view)) =
      repeatedSecrets secrets :=
  problems_secretDiagnostics_map true [] [] secrets

theorem problems_secrets_reordered {first second : Document}
    (reorders : first.Reorders second) :
    (problems (secrets false first)).Perm (problems (secrets false second)) := by
  have repeated := (reorders.map_actions
    (fun action => repeatedSecrets action.secretNames) fun action => by
      rw [Action.secretNames_mapTokens, repeatedSecrets_map]).flatten
  have names := (reorders.map_actions
    (fun action => action.secretNames.map StringValue.value) fun action => by
      rw [Action.secretNames_mapTokens, List.map_map]
      rfl).flatten
  have used : (usedAfter [] (first.actions.map Action.secretNames).flatten).Perm
      (usedAfter [] (second.actions.map Action.secretNames).flatten) := by
    apply usedAfter_perm
    simpa only [List.map_flatten, List.map_map, Function.comp_def] using names
  have listed (document : Document) :=
    @problems_secretListDiagnostics_perm false []
      (document.actions.map Action.secretNames) fun _ => Nat.zero_le _
  refine (listed first).trans (List.Perm.trans ?_ (listed second).symm)
  rw [used.length_eq, List.flatMap_map, List.flatMap_map]
  exact repeated.append_right _

/-! ## Values -/

theorem problems_values_reordered {first second : Document}
    (reorders : first.Reorders second) :
    (problems (values first)).Perm (problems (values second)) := by
  rw [← @problems_values_mapTokens Token.unplaced first,
    ← @problems_values_mapTokens Token.unplaced second]
  simp only [values, Diagnostic.problems_append, Diagnostic.problems_flatMap]
  exact (reorders.workflows.flatMap_right _).append
    (reorders.actions.flatMap_right _)

end Checks

/-! ## Circular dependencies -/

namespace Document

/-- Where no two actions have one name, every action counts. -/
theorem counts_iff_mem {document : Document}
    (distinct : (document.actions.map Action.name).Nodup) {action : Action} :
    document.Counts action ↔ action ∈ document.actions := by
  constructor
  · intro counts
    exact List.mem_of_find?_eq_some counts
  · intro member
    obtain ⟨counting, counts, named⟩ :=
      HasAction.exists_counts ⟨action, member, rfl⟩
    have isSame : counting = action :=
      List.inj_on_of_nodup_map distinct (List.mem_of_find?_eq_some counts)
        member named
    exact isSame ▸ counts

/-- The names of an action and of what it needs. -/
def needsOf (action : Action) : String × List String :=
  (action.name, action.references.map StringValue.value)

theorem needs_iff {document : Document}
    (distinct : (document.actions.map Action.name).Nodup)
    {first second : String} :
    document.Needs first second ↔
      (∃ needs, (second, needs) ∈ document.actions.map needsOf) ∧
        ∃ needs, (first, needs) ∈ document.actions.map needsOf ∧
          second ∈ needs := by
  simp only [Needs, HasAction, counts_iff_mem distinct, needsOf, List.mem_map,
    Prod.mk.injEq]
  constructor
  · rintro ⟨⟨needed, isNeeded, rfl⟩, action, isAction, rfl, needs⟩
    exact ⟨⟨_, needed, isNeeded, rfl, rfl⟩, _, ⟨action, isAction, rfl, rfl⟩,
      List.mem_map.mpr needs⟩
  · rintro ⟨⟨_, needed, isNeeded, rfl, -⟩, _, ⟨action, isAction, rfl, rfl⟩,
      needs⟩
    exact ⟨⟨needed, isNeeded, rfl⟩, action, isAction, rfl,
      List.mem_map.mp needs⟩

theorem Reorders.hasCycle_iff {first second : Document}
    (reorders : first.Reorders second) (distinct : first.blockNames.Nodup) :
    first.HasCycle ↔ second.HasCycle := by
  have otherDistinct := reorders.blockNames.nodup_iff.mp distinct
  have needs := reorders.map_actions needsOf fun action => by
    rw [needsOf, needsOf, Action.references, Action.mapTokens,
      Definition.entries_mapStrings, List.map_map]
    rfl
  have sameNeeds : first.Needs = second.Needs := by
    funext name other
    rw [eq_iff_iff, needs_iff (nodup_map_actionName distinct),
      needs_iff (nodup_map_actionName otherDistinct)]
    simp only [needs.mem_iff]
  rw [HasCycle, HasCycle, sameNeeds]

end Document

namespace Checks

/-- All that is reported of a cycle is that there is one. -/
theorem circular_dependencies (document : Document) :
    ((problems (dependencies false document)).filter fun problem =>
        !problem.isCircularDependency) = [] ∧
      ((problems (dependencies false document)).any
          Problem.isCircularDependency = true ↔ document.HasCycle) := by
  cases found : cycleEntry? document with
  | none =>
      have noCycle := not_hasCycle_of_no_entry found
      simp [dependencies, found, noCycle]
  | some entry =>
      have closes : document.ClosesCycle entry :=
        closesCycle_of_cycleEntryFrom (List.Subset.refl _) found
      simp [dependencies, found, Problem.isCircularDependency, closes.hasCycle]

theorem agree_dependencies_reordered {first second : Document}
    (reorders : first.Reorders second) (distinct : first.blockNames.Nodup) :
    Problem.Agree (problems (dependencies false first))
      (problems (dependencies false second)) := by
  obtain ⟨nothingElse, cycle⟩ := circular_dependencies first
  obtain ⟨otherNothingElse, otherCycle⟩ := circular_dependencies second
  constructor
  · rw [nothingElse, otherNothingElse]
  · rw [Bool.eq_iff_iff, cycle, otherCycle]
    exact reorders.hasCycle_iff distinct

end Checks

theorem Check.agree_reordered {first second : Document}
    (reorders : first.Reorders second) (distinct : first.blockNames.Nodup)
    (check : Check) :
    Problem.Agree (problems (check.diagnostics Notices.none first))
      (problems (check.diagnostics Notices.none second)) := by
  cases check with
  | blocks =>
      exact .of_perm (.of_eq (Checks.problems_blocks_reordered reorders distinct))
  | dependencies =>
      exact Checks.agree_dependencies_reordered reorders distinct
  | references => exact .of_perm (Checks.problems_references_reordered reorders)
  | secrets => exact .of_perm (Checks.problems_secrets_reordered reorders)
  | values => exact .of_perm (Checks.problems_values_reordered reorders)

/-- The checks find the same problems, in whatever order the blocks are. -/
theorem Document.Reorders.agree_checkDiagnostics {first second : Document}
    (reorders : first.Reorders second) (distinct : first.blockNames.Nodup) :
    Problem.Agree (problems first.checkDiagnostics)
      (problems second.checkDiagnostics) := by
  rw [checkDiagnostics, checkDiagnostics, Diagnostic.problems_flatMap,
    Diagnostic.problems_flatMap]
  exact .flatMap fun check _ => check.agree_reordered reorders distinct

end WorkflowLang
