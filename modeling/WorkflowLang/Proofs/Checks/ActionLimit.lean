import WorkflowLang.Proofs.Compilation.ActionIndex
import WorkflowLang.Proofs.Compilation.Joining
import WorkflowLang.Proofs.Document.Marks
import WorkflowLang.Proofs.Document.Naming

/-!
# The limit of actions

The check of blocks counts actions and reports the first one beyond the limit, once.
It counts an action if no earlier block has its name.  So of the actions with one
name the first is counted, unless a workflow before it has this name
(`Checks.reportsLimit`): a document with more names of actions than the limit allows
may go without a report.
-/

namespace WorkflowLang

section

variable {Key : Type} {seen passed : List Key}

/-- A key that was seen adds nothing to the keys that were passed. -/
theorem mem_iff_concat_of_mem (same : ∀ found, found ∈ seen ↔ found ∈ passed)
    {key : Key} (known : key ∈ seen) :
    ∀ found, found ∈ seen ↔ found ∈ passed ++ [key] := by
  intro found
  rw [List.mem_append, List.mem_singleton, ← same, or_iff_left_of_imp]
  rintro rfl
  exact known

theorem mem_cons_iff_concat (same : ∀ found, found ∈ seen ↔ found ∈ passed)
    (key : Key) : ∀ found, found ∈ key :: seen ↔ found ∈ passed ++ [key] := by
  intro found
  rw [List.mem_cons, List.mem_append, List.mem_singleton, same, or_comm]

end

/-! ## First actions -/

def DocumentBlock.action? : DocumentBlock → Option Action
  | .workflow _ => none
  | .action declared => some declared

namespace Document

/-- The first action of each name, in the order of the source. -/
def firstActions (document : Document) : List Action :=
  unmarked (markRepeated Action.name
    (document.blocks.filterMap DocumentBlock.action?))

theorem mem_filterMap_action? (document : Document) (action : Action) :
    action ∈ document.blocks.filterMap DocumentBlock.action? ↔
      action ∈ document.actions := by
  rw [List.mem_filterMap]
  constructor
  · rintro ⟨block, isBlock, isAction⟩
    have member := document.perm_blocks.mem_iff.mp isBlock
    cases block with
    | workflow declared => contradiction
    | action declared =>
        obtain rfl := Option.some.inj isAction
        simpa using member
  · intro member
    refine ⟨.action action, document.perm_blocks.mem_iff.mpr ?_, rfl⟩
    exact List.mem_append_right _ (List.mem_map_of_mem member)

/-- There is one first action for each name of an action. -/
theorem perm_map_name_firstActions (document : Document) :
    (document.firstActions.map Action.name).Perm document.actionNames := by
  obtain ⟨nodup, members⟩ := @keys_unmarked _ _ _ Action.name []
    (document.blocks.filterMap DocumentBlock.action?)
  rw [markAmong_nil] at nodup members
  refine (List.perm_ext_iff_of_nodup nodup document.nodup_actionNames).mpr ?_
  intro name
  rw [mem_actionNames, members, HasAction, List.mem_map]
  simp only [mem_filterMap_action?, List.not_mem_nil, not_false_eq_true,
    and_true]

end Document

namespace Checks

/-! ## Counting -/

/-- The report that there are too many actions. -/
def excess (action : Action) : Diagnostic :=
  ⟨.tooManyActions, action.block.name.span⟩

/-- The actions that are counted among some blocks. -/
def countedActions (seen : List String) (blocks : List DocumentBlock) :
    List Action :=
  (unmarked (markAmong seen DocumentBlock.name blocks)).filterMap
    DocumentBlock.action?

theorem countedActions_known {seen : List String} {block : DocumentBlock}
    (known : block.name ∈ seen) (others : List DocumentBlock) :
    countedActions seen (block :: others) = countedActions seen others := by
  rw [countedActions, unmarked_known known, countedActions]

theorem countedActions_fresh {seen : List String} {block : DocumentBlock}
    (fresh : block.name ∉ seen) (others : List DocumentBlock) :
    countedActions seen (block :: others) =
      block.action?.toList ++ countedActions (block.name :: seen) others := by
  rw [countedActions, unmarked_fresh fresh, countedActions]
  cases block <;> rfl

/-- What has been reported is not reported again. -/
theorem filter_blockDiagnostics_noticed (seen : List String) (count : Nat)
    (blocks : List DocumentBlock) :
    (blockDiagnostics true seen count blocks).filter
      (fun diagnostic => diagnostic.problem = .tooManyActions) = [] := by
  induction blocks generalizing seen count with
  | nil => rfl
  | cons block others inductionHypothesis =>
      cases block <;> simp only [blockDiagnostics] <;> split <;>
        simp [inductionHypothesis]

/-- Before the report as many actions are counted as the limit allows. -/
theorem filter_blockDiagnostics_counting (seen : List String) {count : Nat}
    (within : count ≤ maximumActions) (blocks : List DocumentBlock) :
    (blockDiagnostics false seen count blocks).filter
        (fun diagnostic => diagnostic.problem = .tooManyActions) =
      ((countedActions seen blocks)[maximumActions - count]?.map
        excess).toList := by
  induction blocks generalizing seen count with
  | nil => rfl
  | cons block others inductionHypothesis =>
      by_cases known : block.name ∈ seen
      · have behind := inductionHypothesis seen within
        rw [countedActions_known known, ← behind]
        cases block with
        | workflow declared =>
            have taken : declared.name ∈ seen := known
            simp [blockDiagnostics, taken]
        | action declared =>
            have taken : declared.name ∈ seen := known
            simp [blockDiagnostics, taken]
      · rw [countedActions_fresh known]
        cases block with
        | workflow declared =>
            have free : declared.name ∉ seen := known
            have behind := inductionHypothesis (declared.name :: seen) within
            simpa [blockDiagnostics, free, DocumentBlock.action?,
              DocumentBlock.name] using behind
        | action declared =>
            have free : declared.name ∉ seen := known
            by_cases isLast : count = maximumActions
            · have behind := filter_blockDiagnostics_noticed
                (declared.name :: seen) (count + 1) others
              subst isLast
              simpa [blockDiagnostics, free, DocumentBlock.action?, excess]
                using behind
            · have below : count + 1 ≤ maximumActions := by omega
              have behind :=
                inductionHypothesis (declared.name :: seen) below
              have index : maximumActions - count =
                  maximumActions - (count + 1) + 1 := by omega
              rw [index]
              simpa [blockDiagnostics, free, DocumentBlock.action?,
                DocumentBlock.name, Nat.not_lt.mpr below] using behind

/-! ## Which actions are counted -/

/-- Of some blocks the first with a name is a workflow. -/
def beginsWithWorkflow (blocks : List DocumentBlock) (name : String) : Bool :=
  (blocks.find? fun block => block.name == name).any
    fun block => block.action?.isNone

variable {before others : List DocumentBlock} {declared : Action}

theorem beginsWithWorkflow_of_fresh
    (fresh : declared.name ∉ before.map DocumentBlock.name) :
    beginsWithWorkflow (before ++ .action declared :: others)
      declared.name = false := by
  have none : before.find? (fun block => block.name == declared.name) =
      none := by
    simpa [List.find?_eq_none] using fresh
  rw [beginsWithWorkflow, List.find?_append, none, Option.none_or,
    List.find?_cons_of_pos (by simp [DocumentBlock.name])]
  rfl

theorem beginsWithWorkflow_of_taken
    (taken : declared.name ∈ before.map DocumentBlock.name)
    (fresh : declared.name ∉
      (before.filterMap DocumentBlock.action?).map Action.name) :
    beginsWithWorkflow (before ++ others) declared.name = true := by
  obtain ⟨block, isBlock, named⟩ := List.mem_map.mp taken
  have some : (before.find? fun block =>
      block.name == declared.name).isSome = true := by
    rw [List.find?_isSome]
    exact ⟨block, isBlock, by simpa using named⟩
  obtain ⟨first, isFirst⟩ := Option.isSome_iff_exists.mp some
  rw [beginsWithWorkflow, List.find?_append, isFirst, Option.some_or,
    Option.any_some]
  cases first with
  | workflow declared => rfl
  | action other =>
      have sameName : other.name = declared.name := by
        simpa [DocumentBlock.name] using List.find?_some isFirst
      refine absurd (List.mem_map.mpr ⟨other, ?_, sameName⟩) fresh
      exact List.mem_filterMap.mpr ⟨_, List.mem_of_find?_eq_some isFirst, rfl⟩

theorem names_actions_subset (blocks : List DocumentBlock) :
    (blocks.filterMap DocumentBlock.action?).map Action.name ⊆
      blocks.map DocumentBlock.name := by
  intro name member
  obtain ⟨action, isAction, rfl⟩ := List.mem_map.mp member
  obtain ⟨block, isBlock, isSome⟩ := List.mem_filterMap.mp isAction
  refine List.mem_map.mpr ⟨block, isBlock, ?_⟩
  cases block with
  | workflow _ => contradiction
  | action _ => exact congrArg Action.name (Option.some.inj isSome)

/-- The actions that are counted are the first of each name, but for those with the
name of a workflow before them. -/
theorem countedActions_eq {seen actionsSeen : List String}
    (before blocks : List DocumentBlock)
    (names : ∀ name, name ∈ seen ↔ name ∈ before.map DocumentBlock.name)
    (actionNames : ∀ name, name ∈ actionsSeen ↔
      name ∈ (before.filterMap DocumentBlock.action?).map Action.name) :
    countedActions seen blocks =
      (unmarked (markAmong actionsSeen Action.name
        (blocks.filterMap DocumentBlock.action?))).filter
          fun action => !beginsWithWorkflow (before ++ blocks) action.name := by
  -- The blocks that were passed move to the front, so the filter stays as it is.
  induction blocks generalizing before seen actionsSeen with
  | nil => rfl
  | cons block others inductionHypothesis =>
      have nextNames : (before ++ [block]).map DocumentBlock.name =
          before.map DocumentBlock.name ++ [block.name] := List.map_append
      rw [List.append_cons]
      cases block with
      | workflow declared =>
          have sameActions : (before ++ [DocumentBlock.workflow
              declared]).filterMap DocumentBlock.action? =
                before.filterMap DocumentBlock.action? := by
            simp [DocumentBlock.action?]
          rw [List.filterMap_cons_none rfl]
          by_cases known : (DocumentBlock.workflow declared).name ∈ seen
          · rw [countedActions_known known]
            exact inductionHypothesis _
              (nextNames ▸ mem_iff_concat_of_mem names known)
              (sameActions ▸ actionNames)
          · rw [countedActions_fresh known]
            exact inductionHypothesis _ (nextNames ▸ mem_cons_iff_concat names _)
              (sameActions ▸ actionNames)
      | action declared =>
          have nextActions : ((before ++ [DocumentBlock.action
              declared]).filterMap DocumentBlock.action?).map Action.name =
                (before.filterMap DocumentBlock.action?).map Action.name ++
                  [declared.name] := by
            simp [DocumentBlock.action?]
          have isSome : (DocumentBlock.action declared).action? =
              some declared := rfl
          rw [List.filterMap_cons_some isSome]
          by_cases known : (DocumentBlock.action declared).name ∈ seen
          · rw [countedActions_known known]
            by_cases isAction : declared.name ∈ actionsSeen
            · rw [unmarked_known isAction]
              exact inductionHypothesis _
                (nextNames ▸ mem_iff_concat_of_mem names known)
                (nextActions ▸ mem_iff_concat_of_mem actionNames isAction)
            · rw [unmarked_fresh isAction, List.filter_cons_of_neg]
              · exact inductionHypothesis _
                  (nextNames ▸ mem_iff_concat_of_mem names known)
                  (nextActions ▸ mem_cons_iff_concat actionNames _)
              · rw [List.append_assoc, beginsWithWorkflow_of_taken
                  ((names _).mp known) (mt (actionNames _).mpr isAction)]
                decide
          · have isNew : declared.name ∉ before.map DocumentBlock.name :=
              mt (names _).mpr known
            have isAction : declared.name ∉ actionsSeen := fun member =>
              isNew (names_actions_subset before ((actionNames _).mp member))
            rw [countedActions_fresh known, unmarked_fresh isAction,
              List.filter_cons_of_pos]
            · exact congrArg (declared :: ·) (inductionHypothesis _
                (nextNames ▸ mem_cons_iff_concat names _)
                (nextActions ▸ mem_cons_iff_concat actionNames _))
            · rw [List.append_assoc, List.singleton_append,
                beginsWithWorkflow_of_fresh isNew]
              rfl

/-- The check of blocks reports the limit at most once: at the action that is one too
many among the first actions of each name that have no workflow of their name before
them. -/
structure ReportsLimit (document : Document) : Prop where
  /-- There is one first action for each name. -/
  names : (document.firstActions.map Action.name).Perm document.actionNames
  reports : (blocks false document).filter
      (fun diagnostic => diagnostic.problem = .tooManyActions) =
    ((document.firstActions.filter fun first =>
      !beginsWithWorkflow document.blocks first.name)[maximumActions]?.map
        excess).toList

theorem reportsLimit (document : Document) : ReportsLimit document where
  names := document.perm_map_name_firstActions
  reports := by
    have counted := @countedActions_eq [] []
      [] document.blocks (by simp) (by simp)
    rw [blocks, filter_blockDiagnostics_counting [] (Nat.zero_le _), counted,
      markAmong_nil]
    rfl

/-! ## A document with too many names -/

theorem length_countedActions_le (seen : List String)
    (blocks : List DocumentBlock) :
    (countedActions seen blocks).length ≤ blocks.length := by
  refine (List.length_filterMap_le _ _).trans ?_
  refine (List.length_filterMap_le _ _).trans_eq ?_
  rw [markAmong, List.length_map, List.length_zipIdx]

section

open Compilation

/-- A workflow, and as many actions as the limit allows and one more.  The workflow
has the name of the first action. -/
def crowdedTexts : List String :=
  "workflow \"0\" \x7b\x7d" ::
    (List.range (maximumActions + 1)).map fun index =>
      "action \"" ++ toString index ++ "\" \x7b\x7d"

def crowdedText : String := "\n".intercalate crowdedTexts

/-- Whether a block is an action, and its name. -/
def blockName (block : DocumentBlock) : Bool × String :=
  (block.action?.isSome, block.name)

theorem crowdedTexts_read :
    (∀ text ∈ crowdedTexts, (Scan.ofText text).diagnostics = [] ∧
      (Parse.ofTokens (Scan.ofText text).tokens).diagnostics = []) ∧
    ((crowdedTexts.flatMap unplacedStatements).filterMap
      Statement.block?).map (blockName ∘ DocumentBlock.ofBlock) =
      (false, "0") ::
        (List.range (maximumActions + 1)).map fun index =>
          (true, toString index) := by
  decide +kernel

theorem crowdedText_blocks :
    (ofText crowdedText).document.blocks.map blockName =
      (false, "0") ::
        (List.range (maximumActions + 1)).map fun index =>
          (true, toString index) := by
  obtain ⟨quiet, names⟩ := crowdedTexts_read
  have clean : ∀ text ∈ crowdedTexts,
      (ofText text).hasSyntaxErrors = false :=
    fun text member =>
      (hasSyntaxErrors_eq_false_iff text).mpr (quiet text member)
  have blocks : ((ofText crowdedText).tree.mapTokens Token.unplaced).blocks =
      (crowdedTexts.flatMap unplacedStatements).filterMap Statement.block? :=
    congrArg (List.filterMap _) (statements_joined clean).2
  rw [← names, ← blocks, blocks_eq, SyntaxTree.blocks_mapTokens, List.map_map,
    List.map_map]
  refine List.map_congr_left fun block _ => ?_
  simp only [Function.comp_apply,
    DocumentBlock.ofBlock_mapTokens Token.keepsContent_unplaced]
  cases DocumentBlock.ofBlock block <;> rfl

/-- The document has more names of actions than the limit allows, and there is no
report of it. -/
theorem crowdedText_unreported :
    maximumActions < (ofText crowdedText).document.actionNames.length ∧
      (blocks false (ofText crowdedText).document).filter
        (fun diagnostic => diagnostic.problem = .tooManyActions) = [] := by
  have isNamed := crowdedText_blocks
  generalize (ofText crowdedText).document = document at isNamed
  constructor
  · have distinct : ((List.range (maximumActions + 1)).map
        fun index => toString index).Nodup := by
      decide +kernel
    have declared : ((List.range (maximumActions + 1)).map
        fun index => toString index) ⊆ document.actionNames := by
      intro name member
      have isAction : (true, name) ∈ document.blocks.map blockName := by
        obtain ⟨index, inRange, rfl⟩ := List.mem_map.mp member
        rw [isNamed]
        exact List.mem_cons_of_mem _ (List.mem_map_of_mem inRange)
      obtain ⟨block, isBlock, named⟩ := List.mem_map.mp isAction
      cases block with
      | workflow _ => cases named
      | action declared =>
          cases named
          refine Document.mem_actionNames.mpr ⟨declared, ?_, rfl⟩
          rw [← Document.mem_filterMap_action?]
          exact List.mem_filterMap.mpr ⟨_, isBlock, rfl⟩
    have enough := (List.subperm_of_subset distinct declared).length_le
    rwa [List.length_map, List.length_range] at enough
  · rw [List.range_succ_eq_map] at isNamed
    obtain ⟨first, others, isSplit, firstName, isNamed⟩ :=
      List.map_eq_cons_iff.mp isNamed
    obtain ⟨second, rest, rfl, secondName, isNamed⟩ :=
      List.map_eq_cons_iff.mp isNamed
    have few : rest.length = maximumActions := by
      simpa using congrArg List.length isNamed
    -- The name of the first action is taken, so one action is not counted.
    have known : second.name ∈ first.name :: [] := by
      rw [show second.name = first.name from
        (congrArg Prod.snd secondName).trans
          (congrArg Prod.snd firstName).symm]
      exact List.mem_singleton_self _
    have isWorkflow : first.action? = none := by
      simpa [blockName] using congrArg Prod.fst firstName
    rw [blocks, isSplit, filter_blockDiagnostics_counting [] (Nat.zero_le _),
      countedActions_fresh List.not_mem_nil, countedActions_known known,
      isWorkflow, List.getElem?_eq_none]
    · rfl
    · exact (length_countedActions_le _ _).trans_eq few

end

end Checks
end WorkflowLang
