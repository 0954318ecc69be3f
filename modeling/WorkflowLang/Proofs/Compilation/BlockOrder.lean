import WorkflowLang.Proofs.Checks.Reordering
import WorkflowLang.Proofs.Compilation.Joining
import WorkflowLang.Proofs.Layout.Findings

/-!
# The order of blocks

Texts that are written below each other make one document with the blocks of all of
them.  In another order they make a document with the same blocks at other places.  So
if there is no version and no two blocks have one name, the findings are the same in
every order, except that a cycle may be found at another entry
(`Compilation.findings_joined_perm`).
-/

namespace WorkflowLang

open Diagnostic (problems)

namespace SyntaxTree

variable {first second : SyntaxTree}

/-- Trees with the same statements in some order, at some places. -/
def Reorders (first second : SyntaxTree) : Prop :=
  (first.mapTokens Token.unplaced).statements.Perm
    (second.mapTokens Token.unplaced).statements

theorem Reorders.blocks (reorders : first.Reorders second) :
    (first.blocks.map (Block.mapTokens Token.unplaced)).Perm
      (second.blocks.map (Block.mapTokens Token.unplaced)) := by
  rw [← blocks_mapTokens, ← blocks_mapTokens]
  exact List.Perm.filterMap Statement.block? reorders

theorem Reorders.document (reorders : first.Reorders second) :
    (Document.ofTree first).Reorders (Document.ofTree second) := by
  have blocks := reorders.blocks
  rw [← blocks_mapTokens, ← blocks_mapTokens] at blocks
  constructor
  · rw [← Document.ofTree_mapTokens Token.keepsContent_unplaced,
      ← Document.ofTree_mapTokens Token.keepsContent_unplaced]
    exact (blocks.filter _).map _
  · rw [← Document.ofTree_mapTokens Token.keepsContent_unplaced,
      ← Document.ofTree_mapTokens Token.keepsContent_unplaced]
    exact (blocks.filter _).map _

/-- What is wrong with the blocks themselves is wrong in every order. -/
theorem Reorders.problems_blocks (reorders : first.Reorders second) :
    (first.blocks.flatMap fun block => problems block.diagnostics).Perm
      (second.blocks.flatMap fun block => problems block.diagnostics) := by
  have same := reorders.blocks.flatMap_right
    fun block => problems block.diagnostics
  simpa only [List.flatMap_map,
    Block.problems_diagnostics_mapTokens Token.keepsContent_unplaced]
    using same

end SyntaxTree

namespace Compilation

/-- The findings of a text apart from circular dependencies. -/
def acyclicFindings (compilation : Compilation) : List (Nat × String) :=
  (compilation.diagnostics.filter fun diagnostic =>
    !diagnostic.problem.isCircularDependency).map fun diagnostic =>
      diagnostic.problem.finding

def hasCircularDependency (compilation : Compilation) : Bool :=
  compilation.diagnostics.any fun diagnostic =>
    diagnostic.problem.isCircularDependency

variable {text : String} {texts others : List String}

theorem findings_of_agree {first second : Compilation}
    (agree : Problem.Agree (problems first.diagnostics)
      (problems second.diagnostics)) :
    first.acyclicFindings.Perm second.acyclicFindings ∧
      first.hasCircularDependency = second.hasCircularDependency := by
  have findings (compilation : Compilation) : compilation.acyclicFindings =
      ((problems compilation.diagnostics).filter fun problem =>
        !problem.isCircularDependency).map Problem.finding := by
    rw [problems, List.filter_map, List.map_map]
    rfl
  have cycle (compilation : Compilation) : compilation.hasCircularDependency =
      (problems compilation.diagnostics).any
        Problem.isCircularDependency := by
    rw [problems, List.any_map]
    rfl
  rw [findings, findings, cycle, cycle]
  exact ⟨agree.others.map _, agree.circular⟩

theorem versions_eq_nil
    (unversioned : (ofText text).document.version = none) :
    (ofText text).tree.versions = [] := by
  have nothing : (ofText text).tree.versions.head?.map (fun statement =>
      (⟨statement.value, statement⟩ : DocumentVersion)) = none := unversioned
  exact List.head?_eq_none_iff.mp (Option.map_eq_none_iff.mp nothing)

/-- The names that a text declares are known from its statements. -/
theorem blockNames_eq (clean : (ofText text).hasSyntaxErrors = false) :
    (ofText text).document.blockNames =
      ((unplacedStatements text).filterMap Statement.block?).map fun block =>
        (DocumentBlock.ofBlock block).name := by
  have blocks : (ofText text).document.blocks =
      (ofText text).tree.blocks.map DocumentBlock.ofBlock :=
    (isOrdered clean).blocks_ofTree
  have unplaced : (unplacedStatements text).filterMap Statement.block? =
      (ofText text).tree.blocks.map (Block.mapTokens Token.unplaced) :=
    SyntaxTree.blocks_mapTokens ..
  rw [Document.blockNames, blocks, unplaced, List.map_map, List.map_map]
  simp only [Function.comp_def,
    DocumentBlock.ofBlock_mapTokens Token.keepsContent_unplaced,
    DocumentBlock.name_mapTokens]

/-- Joined texts declare the names of all the texts. -/
theorem blockNames_joined
    (clean : ∀ text ∈ texts, (ofText text).hasSyntaxErrors = false) :
    (ofText ("\n".intercalate texts)).document.blockNames =
      texts.flatMap fun text => (ofText text).document.blockNames := by
  obtain ⟨joinedClean, statements⟩ := statements_joined clean
  rw [blockNames_eq joinedClean, statements, List.filterMap_flatMap,
    List.map_flatMap]
  refine List.flatMap_congr fun text isText => ?_
  exact (blockNames_eq (clean text isText)).symm

theorem versions_joined
    (clean : ∀ text ∈ texts, (ofText text).hasSyntaxErrors = false)
    (unversioned : ∀ text ∈ texts, (ofText text).document.version = none) :
    (ofText ("\n".intercalate texts)).tree.versions = [] := by
  have versions (text : String) :
      (unplacedStatements text).filterMap Statement.version? =
        (ofText text).tree.versions.map
          (VersionStatement.mapTokens Token.unplaced) :=
    SyntaxTree.versions_mapTokens ..
  rw [← List.map_eq_nil_iff, ← versions, (statements_joined clean).2,
    List.filterMap_flatMap, List.flatMap_eq_nil_iff]
  intro text isText
  rw [versions, versions_eq_nil (unversioned text isText), List.map_nil]

/-- The same texts in another order are joined to the same statements. -/
theorem reorders_joined (permutes : texts.Perm others)
    (clean : ∀ text ∈ texts, (ofText text).hasSyntaxErrors = false) :
    (ofText ("\n".intercalate texts)).tree.Reorders
      (ofText ("\n".intercalate others)).tree := by
  have otherClean : ∀ text ∈ others, (ofText text).hasSyntaxErrors = false :=
    fun text isText => clean text (permutes.mem_iff.mpr isText)
  have statements := (statements_joined clean).2
  have otherStatements := (statements_joined otherClean).2
  rw [SyntaxTree.Reorders]
  exact (List.Perm.of_eq statements).trans
    ((permutes.flatMap_right _).trans (.of_eq otherStatements.symm))

theorem problems_of_unversioned
    (clean : (ofText text).hasSyntaxErrors = false)
    (unversioned : (ofText text).tree.versions = []) :
    problems (ofText text).diagnostics = otherProblems text := by
  have notLate : ¬(ofText text).tree.VersionIsLate := by
    rintro ⟨statement, isFirst, -⟩
    rw [unversioned] at isFirst
    contradiction
  rw [problems_of_not_late clean notLate, versionProblems, unversioned]
  rfl

/-- Texts without syntax errors and versions, no two of whose blocks have one name, may
be written below each other in any order: the findings are the same, and a circular
dependency is found in every order or in none. -/
theorem findings_joined_perm (permutes : texts.Perm others)
    (clean : ∀ text ∈ texts, (ofText text).hasSyntaxErrors = false)
    (unversioned : ∀ text ∈ texts, (ofText text).document.version = none)
    (distinct : (texts.flatMap fun text =>
      (ofText text).document.blockNames).Nodup) :
    (ofText ("\n".intercalate texts)).acyclicFindings.Perm
        (ofText ("\n".intercalate others)).acyclicFindings ∧
      (ofText ("\n".intercalate texts)).hasCircularDependency =
        (ofText ("\n".intercalate others)).hasCircularDependency := by
  have otherClean : ∀ text ∈ others, (ofText text).hasSyntaxErrors = false :=
    fun text isText => clean text (permutes.mem_iff.mpr isText)
  have otherUnversioned : ∀ text ∈ others,
      (ofText text).document.version = none :=
    fun text isText => unversioned text (permutes.mem_iff.mpr isText)
  have reorders := reorders_joined permutes clean
  rw [← blockNames_joined clean] at distinct
  apply findings_of_agree
  rw [problems_of_unversioned (statements_joined clean).1
      (versions_joined clean unversioned),
    problems_of_unversioned (statements_joined otherClean).1
      (versions_joined otherClean otherUnversioned)]
  exact (Problem.Agree.of_perm reorders.problems_blocks).append
    (reorders.document.agree_checkDiagnostics distinct)

/-- Two actions that need each other, the first with a comment up to its end, and a
workflow that resolves one of them and an unknown one.  In the reverse order the cycle
is found at the other action. -/
def circularTexts : List String :=
  ["action \"a\" \x7b uses = \"./a\" needs = \"b\" \x7d # first",
    "workflow \"w\" \x7b on = \"push\" resolves = [\"a\", \"c\"] \x7d\r",
    "action \"b\" \x7b uses = \"./b\" needs = [\"a\", \"a\"] \x7d"]

theorem findings_joined_perm_circularTexts :
    (∀ text ∈ circularTexts, (ofText text).hasSyntaxErrors = false) ∧
      (∀ text ∈ circularTexts, (ofText text).document.version = none) ∧
      (circularTexts.flatMap fun text =>
        (ofText text).document.blockNames) = ["a", "w", "b"] ∧
      circularTexts.Perm circularTexts.reverse ∧
      (ofText ("\n".intercalate circularTexts)).acyclicFindings.Perm
        (ofText ("\n".intercalate circularTexts.reverse)).acyclicFindings ∧
      (ofText ("\n".intercalate circularTexts)).hasCircularDependency =
        (ofText
          ("\n".intercalate circularTexts.reverse)).hasCircularDependency := by
  have clean : ∀ text ∈ circularTexts,
      (ofText text).hasSyntaxErrors = false := by
    intro text isText
    rw [hasSyntaxErrors_eq_false_iff]
    revert text
    decide +kernel
  have unversioned : ∀ text ∈ circularTexts,
      (ofText text).document.version = none := by
    decide +kernel
  have names : (circularTexts.flatMap fun text =>
      (ofText text).document.blockNames) = ["a", "w", "b"] := by
    rw [List.flatMap_congr fun text isText =>
      blockNames_eq (clean text isText)]
    decide +kernel
  have permutes : circularTexts.Perm circularTexts.reverse :=
    (List.reverse_perm _).symm
  exact ⟨clean, unversioned, names, permutes,
    findings_joined_perm permutes clean unversioned (by rw [names]; decide)⟩

end Compilation

end WorkflowLang
