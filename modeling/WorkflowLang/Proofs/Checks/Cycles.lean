import WorkflowLang.Checks.Dependencies
import Mathlib.Data.List.Chain
import Mathlib.Logic.Relation

/-!
# Cycles of dependencies

The search keeps two things true of its stack.  Each frame is needed by the one
below it, so an entry that names an action on the stack closes a cycle.  And every
discovered action is on the stack or settled: no endless chain of needs begins at
it.  A frame without remaining entries has only settled needs, so it is settled
when it is dropped.  Hence the search reports exactly when there is a cycle
(`Checks.dependencies_exact`).
-/

namespace WorkflowLang

namespace Document

def HasAction (document : Document) (name : String) : Prop :=
  ∃ action ∈ document.actions, action.name = name

/-- Of the actions with one name the first counts. -/
def Counts (document : Document) (action : Action) : Prop :=
  document.actions.find? (fun other => other.name == action.name) =
    some action

/-- The graph of needs: the action that counts for a name leads to the names in
its `needs` that actions have. -/
def Needs (document : Document) (first second : String) : Prop :=
  document.HasAction second ∧
    ∃ action, document.Counts action ∧ action.name = first ∧
      ∃ entry ∈ action.references, entry.value = second

/-- Some action needs itself, directly or through others. -/
def HasCycle (document : Document) : Prop :=
  ∃ name, Relation.TransGen document.Needs name name

/-- An entry that closes a cycle: it names an action from which the action that
owns the entry is reached. -/
def ClosesCycle (document : Document) (entry : StringValue) : Prop :=
  document.HasAction entry.value ∧
    ∃ owner, document.Counts owner ∧ entry ∈ owner.references ∧
      Relation.ReflTransGen document.Needs entry.value owner.name

theorem ClosesCycle.hasCycle {document : Document} {entry : StringValue}
    (closes : document.ClosesCycle entry) : document.HasCycle := by
  obtain ⟨declared, owner, counts, member, reaches⟩ := closes
  have last : document.Needs owner.name entry.value :=
    ⟨declared, owner, counts, rfl, entry, member, rfl⟩
  exact ⟨entry.value, Relation.TransGen.tail' reaches last⟩

theorem needs?_eq_some {document : Document} {name : String}
    {needs : List StringValue} (found : document.needs? name = some needs) :
    ∃ action, document.Counts action ∧ action.name = name ∧
      action.references = needs := by
  obtain ⟨action, first, rfl⟩ := Option.map_eq_some_iff.mp found
  have named : action.name = name := by
    simpa using List.find?_some first
  subst named
  exact ⟨action, first, rfl, rfl⟩

theorem needs?_of_counts {document : Document} {action : Action}
    (counts : document.Counts action) :
    document.needs? action.name = some action.references :=
  congrArg (Option.map Action.references) counts

theorem Counts.hasAction {document : Document} {action : Action}
    (counts : document.Counts action) : document.HasAction action.name :=
  ⟨action, List.mem_of_find?_eq_some counts, rfl⟩

theorem HasAction.exists_counts {document : Document} {name : String}
    (declared : document.HasAction name) :
    ∃ action, document.Counts action ∧ action.name = name := by
  obtain ⟨action, member, rfl⟩ := declared
  cases first : document.actions.find? fun other =>
      other.name == action.name with
  | none => simpa using List.find?_eq_none.mp first action member
  | some counting =>
      have named : counting.name = action.name := by
        simpa using List.find?_some first
      refine ⟨counting, ?_, named⟩
      rw [Counts, named]
      exact first

theorem Counts.eq {document : Document} {first second : Action}
    (firstCounts : document.Counts first)
    (secondCounts : document.Counts second)
    (named : first.name = second.name) : first = second := by
  unfold Counts at firstCounts secondCounts
  rw [named, secondCounts] at firstCounts
  exact (Option.some.inj firstCounts).symm

end Document

namespace Checks

variable {document : Document}

/-- No endless chain of needs begins at a name. -/
def Settled (document : Document) (name : String) : Prop :=
  Acc (fun second first => document.Needs first second) name

theorem Settled.not_transGen {name : String}
    (settled : Settled document name) :
    ¬Relation.TransGen document.Needs name name := by
  induction settled with
  | intro name _ inductionHypothesis =>
      intro cycle
      obtain ⟨next, needs, back⟩ := Relation.TransGen.head'_iff.mp cycle
      exact inductionHypothesis next needs
        (Relation.TransGen.tail' back needs)

/-- A stack of frames is a path: each frame has entries of the action that counts
for its name, and is needed by the frame below it. -/
structure IsPath (document : Document) (frames : List Frame) : Prop where
  owned : ∀ frame ∈ frames, ∃ action, document.Counts action ∧
    action.name = frame.name ∧ frame.remaining ⊆ action.references
  chain : frames.IsChain fun above below =>
    document.Needs below.name above.name

namespace IsPath

/-- From every name on a path the top is reached. -/
theorem reaches {top : Frame} {frames : List Frame}
    (path : IsPath document (top :: frames)) {frame : Frame}
    (member : frame ∈ top :: frames) :
    Relation.ReflTransGen document.Needs frame.name top.name := by
  have chain := path.chain
  clear path
  induction frames generalizing top with
  | nil =>
      rw [List.mem_singleton.mp member]
  | cons below frames inductionHypothesis =>
      obtain ⟨needs, chain⟩ := List.isChain_cons_cons.mp chain
      rcases List.mem_cons.mp member with rfl | isBelow
      · exact .refl
      · exact (inductionHypothesis isBelow chain).tail needs

theorem drop {top : Frame} {frames : List Frame}
    (path : IsPath document (top :: frames)) : IsPath document frames :=
  ⟨fun frame member => path.owned frame (List.mem_cons_of_mem _ member),
    path.chain.tail⟩

theorem pass {name : String} {entry : StringValue}
    {remaining : List StringValue} {frames : List Frame}
    (path : IsPath document (⟨name, entry :: remaining⟩ :: frames)) :
    IsPath document (⟨name, remaining⟩ :: frames) := by
  refine ⟨fun frame member => ?_, ?_⟩
  · rcases List.mem_cons.mp member with rfl | isBelow
    · obtain ⟨action, counts, named, owned⟩ := path.owned _ List.mem_cons_self
      exact ⟨action, counts, named, fun other isOther =>
        owned (List.mem_cons_of_mem _ isOther)⟩
    · exact path.owned frame (List.mem_cons_of_mem _ isBelow)
  · have chain := path.chain
    cases frames with
    | nil => exact List.isChain_singleton _
    | cons below frames =>
        obtain ⟨needs, chain⟩ := List.isChain_cons_cons.mp chain
        exact List.isChain_cons_cons.mpr ⟨needs, chain⟩

theorem push {name : String} {entry : StringValue}
    {remaining needs : List StringValue} {frames : List Frame}
    (path : IsPath document (⟨name, entry :: remaining⟩ :: frames))
    (declared : document.needs? entry.value = some needs) :
    IsPath document
      (⟨entry.value, needs⟩ :: ⟨name, remaining⟩ :: frames) := by
  obtain ⟨next, nextCounts, nextNamed, rfl⟩ :=
    Document.needs?_eq_some declared
  obtain ⟨action, counts, named, owned⟩ := path.owned _ List.mem_cons_self
  refine ⟨fun frame member => ?_, List.isChain_cons_cons.mpr ⟨?_,
    path.pass.chain⟩⟩
  · rcases List.mem_cons.mp member with rfl | isBelow
    · exact ⟨next, nextCounts, nextNamed, fun _ isOther => isOther⟩
    · exact path.pass.owned frame isBelow
  · exact ⟨nextNamed ▸ nextCounts.hasAction, action, counts, named, entry,
      owned List.mem_cons_self, rfl⟩

end IsPath

theorem closesCycle_of_search {discovered : List String}
    {frames : List Frame} (path : IsPath document frames)
    {entry : StringValue}
    (found : (search document discovered frames).1 = some entry) :
    document.ClosesCycle entry := by
  fun_induction search document discovered frames with
  | case1 => simp at found
  | case2 discovered name frames inductionHypothesis =>
      exact inductionHypothesis path.drop found
  | case3 discovered name next remaining frames path' onPath =>
      obtain rfl : next = entry := by simpa using found
      -- The frame that has the name lies below the top, which it reaches.
      obtain ⟨frame, member, named⟩ := List.any_eq_true.mp onPath
      obtain ⟨action, counts, actionNamed, owned⟩ :=
        path.owned _ List.mem_cons_self
      have reaches := path.pass.reaches member
      obtain ⟨target, targetCounts, targetNamed, _⟩ :=
        path.pass.owned frame member
      rw [beq_iff_eq] at named
      refine ⟨?_, action, counts, owned List.mem_cons_self, ?_⟩
      · rw [← named, ← targetNamed]
        exact targetCounts.hasAction
      · rw [← named, actionNamed]
        exact reaches
  | case4 discovered name next remaining frames path' notOnPath fresh
      undeclared inductionHypothesis =>
      exact inductionHypothesis path.pass found
  | case5 discovered name next remaining frames path' notOnPath fresh needs
      declared inductionHypothesis =>
      exact inductionHypothesis (path.push declared) found
  | case6 discovered name next remaining frames path' notOnPath known
      inductionHypothesis =>
      exact inductionHypothesis path.pass found

/-- Everything that an action on the stack needs is settled, still to be looked
at, or the name of the frame above. -/
def IsPending (document : Document) (above : Option String) :
    List Frame → Prop
  | [] => True
  | frame :: frames =>
      (∀ name, document.Needs frame.name name →
        name ∈ frame.remaining.map StringValue.value ∨
          Settled document name ∨ above = some name) ∧
        IsPending document (some frame.name) frames

/-- What the search has done so far: whatever is discovered is settled unless it
is on the stack, and no need of the stack is forgotten. -/
structure HasExplored (document : Document) (discovered : List String)
    (frames : List Frame) : Prop where
  settled : ∀ name ∈ discovered,
    name ∈ frames.map Frame.name ∨ Settled document name
  pending : IsPending document none frames

namespace HasExplored

variable {discovered : List String} {name : String} {frames : List Frame}

/-- A frame without remaining entries is settled when it is dropped. -/
theorem drop
    (explored : HasExplored document discovered (⟨name, []⟩ :: frames)) :
    HasExplored document discovered frames := by
  have settledHere : Settled document name := by
    refine Acc.intro name fun next needs => ?_
    rcases explored.pending.1 next needs with waits | settled | isAbove
    · simp at waits
    · exact settled
    · simp at isAbove
  refine ⟨fun other member => ?_, ?_⟩
  · rcases explored.settled other member with onStack | settled
    · rcases List.mem_cons.mp onStack with rfl | isBelow
      · exact Or.inr settledHere
      · exact Or.inl isBelow
    · exact Or.inr settled
  · have pending := explored.pending.2
    cases frames with
    | nil => trivial
    | cons below frames =>
        refine ⟨fun next needs => ?_, pending.2⟩
        rcases pending.1 next needs with waits | settled | isAbove
        · exact Or.inl waits
        · exact Or.inr (Or.inl settled)
        · exact Or.inr (Or.inl (Option.some.inj isAbove ▸ settledHere))

variable {entry : StringValue} {remaining : List StringValue}

/-- An entry may be passed over when what it names is settled or unknown. -/
theorem pass
    (explored : HasExplored document discovered
      (⟨name, entry :: remaining⟩ :: frames))
    (harmless : document.HasAction entry.value →
      Settled document entry.value) :
    HasExplored document discovered (⟨name, remaining⟩ :: frames) := by
  refine ⟨explored.settled, fun next needs => ?_, explored.pending.2⟩
  rcases explored.pending.1 next needs with waits | settled | isAbove
  · rcases List.mem_cons.mp waits with rfl | isLater
    · exact Or.inr (Or.inl (harmless needs.1))
    · exact Or.inl isLater
  · exact Or.inr (Or.inl settled)
  · simp at isAbove

theorem push {needs : List StringValue}
    (explored : HasExplored document discovered
      (⟨name, entry :: remaining⟩ :: frames))
    (declared : document.needs? entry.value = some needs) :
    HasExplored document (entry.value :: discovered)
      (⟨entry.value, needs⟩ :: ⟨name, remaining⟩ :: frames) := by
  obtain ⟨action, counts, named, rfl⟩ := Document.needs?_eq_some declared
  refine ⟨fun other member => ?_, fun next edge => ?_, fun next edge => ?_,
    explored.pending.2⟩
  · rcases List.mem_cons.mp member with rfl | isKnown
    · exact Or.inl List.mem_cons_self
    · exact (explored.settled other isKnown).imp_left (List.mem_cons_of_mem _)
  · obtain ⟨_, owner, ownerCounts, ownerNamed, need, member, rfl⟩ := edge
    obtain rfl := ownerCounts.eq counts (ownerNamed.trans named.symm)
    exact Or.inl (List.mem_map_of_mem member)
  · rcases explored.pending.1 next edge with waits | settled | isAbove
    · rcases List.mem_cons.mp waits with rfl | isLater
      · exact Or.inr (Or.inr rfl)
      · exact Or.inl isLater
    · exact Or.inr (Or.inl settled)
    · simp at isAbove

end HasExplored

/-- A search that finds nothing settles all it discovers. -/
theorem settled_of_search {discovered : List String} {frames : List Frame}
    (explored : HasExplored document discovered frames)
    (nothing : (search document discovered frames).1 = none) :
    ∀ name, (name ∈ discovered →
        name ∈ (search document discovered frames).2) ∧
      (name ∈ (search document discovered frames).2 →
        Settled document name) := by
  fun_induction search document discovered frames with
  | case1 discovered =>
      refine fun name => ⟨id, fun member => ?_⟩
      exact (explored.settled name member).resolve_left (by simp)
  | case2 discovered name frames inductionHypothesis =>
      exact inductionHypothesis explored.drop nothing
  | case3 discovered name next remaining frames path onPath =>
      simp at nothing
  | case4 discovered name next remaining frames path notOnPath fresh
      undeclared inductionHypothesis =>
      refine inductionHypothesis (explored.pass fun declared => ?_) nothing
      obtain ⟨action, counts, named⟩ := declared.exists_counts
      rw [← named, Document.needs?_of_counts counts] at undeclared
      simp at undeclared
  | case5 discovered name next remaining frames path notOnPath fresh needs
      declared inductionHypothesis =>
      intro other
      obtain ⟨kept, settled⟩ :=
        inductionHypothesis (explored.push declared) nothing other
      exact ⟨fun member => kept (List.mem_cons_of_mem _ member), settled⟩
  | case6 discovered name next remaining frames path notOnPath known
      inductionHypothesis =>
      refine inductionHypothesis (explored.pass fun _ => ?_) nothing
      have isKnown : next.value ∈ discovered := by simpa using known
      -- A known name off the stack has been dropped from it before.
      refine (explored.settled _ isKnown).resolve_left fun onStack => ?_
      have samePath : next.value ∈ path.map Frame.name := onStack
      obtain ⟨frame, member, named⟩ := List.mem_map.mp samePath
      exact notOnPath (List.any_eq_true.mpr
        ⟨frame, member, beq_iff_eq.mpr named⟩)

/-- The search from an action begins with what the action of its name needs. -/
theorem exists_needs_of_mem {action : Action}
    (member : action ∈ document.actions) :
    ∃ counting, document.Counts counting ∧ counting.name = action.name ∧
      (document.needs? action.name).getD [] = counting.references := by
  obtain ⟨counting, counts, named⟩ :=
    Document.HasAction.exists_counts ⟨action, member, rfl⟩
  refine ⟨counting, counts, named, ?_⟩
  rw [← named, Document.needs?_of_counts counts]
  rfl

theorem closesCycle_of_cycleEntryFrom {discovered : List String}
    {actions : List Action} (declared : actions ⊆ document.actions)
    {entry : StringValue}
    (found : cycleEntryFrom document discovered actions = some entry) :
    document.ClosesCycle entry := by
  fun_induction cycleEntryFrom document discovered actions with
  | case1 => simp at found
  | case2 discovered action others known inductionHypothesis =>
      exact inductionHypothesis (List.subset_of_cons_subset declared) found
  | case3 discovered action others fresh needs result closing isClosing =>
      obtain ⟨counting, counts, named, needs_eq⟩ :=
        exists_needs_of_mem (declared List.mem_cons_self)
      have path : IsPath document [⟨action.name, needs⟩] := by
        refine ⟨fun frame member => ?_, List.isChain_singleton _⟩
        rw [List.mem_singleton.mp member]
        exact ⟨counting, counts, named, needs_eq ▸ List.Subset.refl _⟩
      exact closesCycle_of_search path (isClosing.trans found)
  | case4 discovered action others fresh needs result nothing
      inductionHypothesis =>
      exact inductionHypothesis (List.subset_of_cons_subset declared) found

theorem settled_of_cycleEntryFrom {discovered : List String}
    {actions : List Action} (declared : actions ⊆ document.actions)
    (settled : ∀ name ∈ discovered, Settled document name)
    (nothing : cycleEntryFrom document discovered actions = none) :
    ∀ action ∈ actions, Settled document action.name := by
  fun_induction cycleEntryFrom document discovered actions with
  | case1 => simp
  | case2 discovered action others known inductionHypothesis =>
      have later := inductionHypothesis (List.subset_of_cons_subset declared)
        settled nothing
      intro other member
      rcases List.mem_cons.mp member with rfl | isLater
      · exact settled _ (by simpa using known)
      · exact later other isLater
  | case3 => simp at nothing
  | case4 discovered action others fresh needs result noEntry
      inductionHypothesis =>
      obtain ⟨counting, counts, named, needs_eq⟩ :=
        exists_needs_of_mem (declared List.mem_cons_self)
      have explored : HasExplored document (action.name :: discovered)
          [⟨action.name, needs⟩] := by
        refine ⟨fun name member => ?_, fun next edge => ?_, trivial⟩
        · exact (List.mem_cons.mp member).imp (by simp) (settled name)
        · obtain ⟨_, owner, ownerCounts, ownerNamed, need, member, rfl⟩ := edge
          obtain rfl := ownerCounts.eq counts (ownerNamed.trans named.symm)
          have inNeeds : need ∈ needs := by
            rw [show needs = owner.references from needs_eq]
            exact member
          exact Or.inl (List.mem_map_of_mem inNeeds)
      have searched := settled_of_search explored noEntry
      have later := inductionHypothesis (List.subset_of_cons_subset declared)
        (fun name => (searched name).2) nothing
      intro other member
      rcases List.mem_cons.mp member with rfl | isLater
      · exact (searched _).2 ((searched _).1 List.mem_cons_self)
      · exact later other isLater

theorem not_hasCycle_of_no_entry (nothing : cycleEntry? document = none) :
    ¬document.HasCycle := by
  rintro ⟨name, cycle⟩
  obtain ⟨last, _, needs⟩ := Relation.TransGen.tail'_iff.mp cycle
  obtain ⟨action, member, rfl⟩ := needs.1
  have settled := settled_of_cycleEntryFrom (List.Subset.refl _) (by simp)
    nothing action member
  exact settled.not_transGen cycle

/-- One report is made exactly when the needs form a cycle, and it is about an
entry that closes one. -/
theorem dependencies_exact (document : Document) :
    (document.HasCycle → ∃ entry, document.ClosesCycle entry ∧
        dependencies false document =
          [⟨.circularDependency entry.value, entry.span⟩]) ∧
      (¬document.HasCycle → dependencies false document = []) := by
  cases found : cycleEntry? document with
  | none =>
      refine ⟨fun cycle => ?_, fun _ => by simp [dependencies, found]⟩
      exact absurd cycle (not_hasCycle_of_no_entry found)
  | some entry =>
      have closes : document.ClosesCycle entry :=
        closesCycle_of_cycleEntryFrom (List.Subset.refl _) found
      refine ⟨fun _ => ⟨entry, closes, by simp [dependencies, found]⟩, ?_⟩
      exact fun noCycle => absurd closes.hasCycle noCycle

end Checks

end WorkflowLang
