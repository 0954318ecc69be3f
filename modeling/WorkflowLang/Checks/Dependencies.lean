import WorkflowLang.Document
import WorkflowLang.Diagnostic

/-!
# Circular dependencies

The actions of a document form a graph: an action leads to the actions it needs.
Of several actions with one name the first counts.  A depth-first search walks
the graph from each action in turn; an entry that names an action on the current
path closes a cycle, and the first such entry is reported.

The search keeps a stack of frames, one per action on the path, each with the
entries that are still to be looked at.  It ends because every step discovers an
action, drops an entry or drops a frame.
-/

namespace WorkflowLang

/-- What the action of a name needs, if there is such an action. -/
def Document.needs? (document : Document) (name : String) :
    Option (List StringValue) :=
  (document.actions.find? fun action => action.name == name).map
    Action.references

namespace Checks

/-- An action on the current path and its entries still to be looked at. -/
structure Frame where
  name : String
  remaining : List StringValue
  deriving DecidableEq, Inhabited, Repr

/-- How many actions have names that are not yet discovered. -/
def undiscovered (document : Document) (discovered : List String) : Nat :=
  document.actions.countP fun action => !discovered.contains action.name

/-- How many steps the frames of a stack take at most by themselves. -/
def stackSize : List Frame → Nat
  | [] => 0
  | frame :: frames => frame.remaining.length + 1 + stackSize frames

theorem countP_undiscovered_cons_lt (actions : List Action)
    (discovered : List String) (action : Action)
    (declared : action ∈ actions)
    (fresh : discovered.contains action.name = false) :
    (actions.countP fun other =>
        !(action.name :: discovered).contains other.name) <
      actions.countP fun other => !discovered.contains other.name := by
  have fewer (others : List Action) :
      (others.countP fun other =>
          !(action.name :: discovered).contains other.name) ≤
        others.countP fun other => !discovered.contains other.name := by
    apply List.countP_mono_left
    intro other _
    simp
  induction actions with
  | nil => simp at declared
  | cons head others inductionHypothesis =>
      rcases List.mem_cons.mp declared with isHead | isLater
      · subst isHead
        have rest := fewer others
        rw [List.countP_cons, List.countP_cons, fresh]
        simp only [List.contains_cons, BEq.rfl, Bool.true_or, Bool.not_true,
          Bool.not_false, if_true]
        simp only [List.contains_cons] at rest
        exact Nat.lt_succ_of_le rest
      · have rest := inductionHypothesis isLater
        have first := fewer [head]
        simp only [List.countP_cons, List.countP_nil, Nat.zero_add] at first
        rw [List.countP_cons, List.countP_cons]
        omega

theorem undiscovered_cons_lt (document : Document) (discovered : List String)
    (name : String) (needs : List StringValue)
    (declared : document.needs? name = some needs)
    (fresh : discovered.contains name = false) :
    undiscovered document (name :: discovered) <
      undiscovered document discovered := by
  unfold Document.needs? at declared
  rw [Option.map_eq_some_iff] at declared
  obtain ⟨action, found, _⟩ := declared
  have named : action.name = name := by
    simpa using List.find?_some found
  subst named
  exact countP_undiscovered_cons_lt document.actions discovered action
    (List.mem_of_find?_eq_some found) fresh

/-- Walks on from a stack.  The answer is the entry that closes a cycle, if one
is found, and the names discovered in the end. -/
def search (document : Document) (discovered : List String) :
    List Frame → Option StringValue × List String
  | [] => (none, discovered)
  | ⟨_, []⟩ :: frames => search document discovered frames
  | ⟨name, entry :: remaining⟩ :: frames =>
      let path := ⟨name, remaining⟩ :: frames
      if path.any fun frame => frame.name == entry.value then
        (some entry, discovered)
      else if _fresh : discovered.contains entry.value = false then
        match _declared : document.needs? entry.value with
        | none => search document discovered path
        | some needs =>
            search document (entry.value :: discovered)
              (⟨entry.value, needs⟩ :: path)
      else search document discovered path
termination_by frames => (undiscovered document discovered, stackSize frames)
decreasing_by
  · apply Prod.Lex.right
    simp [stackSize]
  · apply Prod.Lex.right
    simp [stackSize]
  · apply Prod.Lex.left
    exact undiscovered_cons_lt document discovered entry.value needs _declared
      _fresh
  · apply Prod.Lex.right
    simp [stackSize]

/-- The first entry that closes a cycle when the walk starts from each of some
actions in turn. -/
def cycleEntryFrom (document : Document) (discovered : List String) :
    List Action → Option StringValue
  | [] => none
  | action :: others =>
      if discovered.contains action.name then
        cycleEntryFrom document discovered others
      else
        let needs := (document.needs? action.name).getD []
        let found :=
          search document (action.name :: discovered) [⟨action.name, needs⟩]
        match found.1 with
        | some entry => some entry
        | none => cycleEntryFrom document found.2 others

/-- The first entry that closes a cycle of a document. -/
def cycleEntry? (document : Document) : Option StringValue :=
  cycleEntryFrom document [] document.actions

/-- Reports one entry that closes a cycle, unless that was done before. -/
def dependencies (isNoticed : Bool) (document : Document) :
    List Diagnostic :=
  if isNoticed then []
  else
    match cycleEntry? document with
    | some entry => [⟨.circularDependency entry.value, entry.span⟩]
    | none => []

end Checks
end WorkflowLang
