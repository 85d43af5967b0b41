import MakeRules.Proofs.Rule.Paths

/-! The prerequisites of a link.

A path of the file list is told apart from others, and found to be tracked, by its written form
alone. So repetitions may go before the tracked paths are chosen, and a table with more targets
leaves out fewer of them without moving any.
-/

set_option autoImplicit false

namespace MakeRules

open Escape

namespace LinkFileList

theorem ofText_eq (text : Text) :
    ofText text = (text.linePieces.map Text.trim).filter fun line => !line.isEmpty := by
  have nonBlank : ∀ pieces : List Text, pieces.filterMap Text.nonBlank? =
      (pieces.map Text.trim).filter fun line => !line.isEmpty := by
    intro pieces
    rw [List.filter_map, ← List.filterMap_eq_map, List.filterMap_filter]
    apply List.filterMap_congr
    intro piece _
    cases blank : piece.trim.isEmpty <;> simp [Text.nonBlank?, blank]
  unfold ofText Text.lines
  split
  · next ended =>
    -- what stands behind the last line break is blank, and so no path
    obtain ⟨front, pieces⟩ := List.getLast?_eq_some_iff.1 ended
    rw [pieces, List.dropLast_concat, nonBlank]
    simp [Text.trim, Text.trimStart, Text.dropEndWhile]
  · exact nonBlank _

/-- Whether the path written as a target is tracked. -/
def isTrackedTarget (table : RuleTable) (target : Text) : Bool :=
  table.has target || isObjectFile target

theorem isTrackedTarget_makeTarget (table : RuleTable) (path : Text) :
    isTrackedTarget table (makeTarget path) = isTracked table path := by
  rw [isTrackedTarget, isTracked, isObjectFile_makeTarget]

theorem prerequisites_eq (table : RuleTable) (paths : List Text) :
    prerequisites table paths =
      (paths.map makeTarget).eraseDups.filter (isTrackedTarget table) := by
  rw [← eraseDups_filter, List.filter_map, prerequisites]
  simp only [Function.comp_def, isTrackedTarget_makeTarget]

/-- A table with more targets tracks more, and what the smaller one tracks keeps its order. -/
theorem prerequisites_sublist {smaller larger : RuleTable}
    (registered : ∀ target, smaller.has target = true → larger.has target = true)
    (paths : List Text) :
    (prerequisites smaller paths).Sublist (prerequisites larger paths) := by
  rw [prerequisites_eq, prerequisites_eq]
  apply List.monotone_filter_right
  intro target tracked
  rw [isTrackedTarget, Bool.or_eq_true] at tracked ⊢
  exact tracked.imp_left (registered target)

/-- The targets of those paths of a list that are objects or have rules. They stand in the order
in which they come first in the list, so none is repeated. -/
structure Picks (table : RuleTable) (paths targets : List Text) : Prop where
  mem_iff : ∀ target, target ∈ targets ↔ ∃ path ∈ paths, makeTarget path = target ∧
    (isObjectFile path = true ∨ table.has target = true)
  ordered : targets.Pairwise fun first second =>
    (paths.map makeTarget).idxOf first < (paths.map makeTarget).idxOf second

theorem picks_prerequisites (table : RuleTable) (paths : List Text) :
    Picks table paths (prerequisites table paths) where
  mem_iff target := by
    rw [prerequisites, List.mem_eraseDups, List.mem_map]
    simp only [List.mem_filter, isTracked, Bool.or_eq_true]
    constructor
    · rintro ⟨path, ⟨member, tracked⟩, rfl⟩
      exact ⟨path, member, rfl, tracked.symm⟩
    · rintro ⟨path, member, rfl, tracked⟩
      exact ⟨path, ⟨member, tracked.symm⟩, rfl⟩
  ordered := by
    rw [prerequisites_eq]
    exact (pairwise_idxOf_eraseDups _).sublist List.filter_sublist

end LinkFileList

namespace Step

/-- A link whose output has no rule adds the rule with its invocation. The prerequisites are the
tracked ones of the lines of the file list, each where it comes first, and further rules in the
table only ever add to them. -/
theorem rule_of_link_step (view : FileView) (file : Text) (site : Site) (output path : Text)
    {text : Text} (reads : view.read (view.resolve site.change.directory path) = .ok text) :
    let paths := (text.linePieces.map Text.trim).filter fun line => !line.isEmpty
    let prerequisites (table : RuleTable) := LinkFileList.prerequisites table paths
    (∀ table : RuleTable, table.has (makeTarget output) = false →
      let added := (link site output (some path)).contribute view file table
      let rule := Rule.ofLink site output (prerequisites table)
      added.diagnostics = [] ∧ added.rules = [rule] ∧
        added.table.rules = table.rules ++ [rule] ∧
        LinkFileList.Picks table paths rule.prerequisites) ∧
      ∀ smaller larger : RuleTable,
        (∀ target, smaller.has target = true → larger.has target = true) →
          (prerequisites smaller).Sublist (prerequisites larger) := by
  intro paths prerequisites
  have listed : LinkFileList.read view (view.resolve site.change.directory path) = .ok paths := by
    rw [LinkFileList.read, reads]
    exact congrArg Except.ok (LinkFileList.ofText_eq text)
  refine ⟨fun table untaken => ?_, fun _ _ registered =>
    LinkFileList.prerequisites_sublist registered paths⟩
  intro added rule
  have whole : added = .ofLink table site output (prerequisites table) := by
    simp only [added, contribute, listed]
    rfl
  have new : table.has rule.target = false := untaken
  have rules : (table.register rule).rules = table.rules ++ [rule] := by
    simp [RuleTable.rules_register, new]
  rw [whole]
  refine ⟨rfl, ?_, ?_, LinkFileList.picks_prerequisites table paths⟩
  · change table.newRules [rule] = [rule]
    simp [RuleTable.newRules, new]
  · rw [Contribution.table_ofLink, RuleTable.rules_addLinkedProduct]
    exact rules

/-- A library with a rule counts as an object does, and one without a rule does not. -/
theorem rule_of_link_step_of_listed_library :
    let text := " b c.o\r\nlib.a\n\na.o\nother.a\n b c.o\nlib.a\n".toList
    let view : FileView := ⟨"/".toList, fun _ => .ok text⟩
    let site : Site := {
      marker := { text := [], line := .ofNat 1 }
      change := { record := { text := [], line := .ofNat 2 }, directory := "/d".toList }
      command := { text := "ld".toList, line := .ofNat 3 } }
    let table := RuleTable.register {} {
      target := "lib.a".toList, prerequisites := [], workingDir := [], recipe := [] }
    let added (table : RuleTable) :=
      (link site "app".toList (some "list".toList)).contribute view [] table
    view.read (view.resolve site.change.directory "list".toList) = .ok text ∧
      table.has (makeTarget "app".toList) = false ∧
      (added table).rules.map (·.prerequisites) =
        [["b\\ c.o".toList, "lib.a".toList, "a.o".toList]] ∧
      (added {}).rules.map (·.prerequisites) = [["b\\ c.o".toList, "a.o".toList]] := by
  intro text view site table added
  have reads : view.read (view.resolve site.change.directory "list".toList) = .ok text := rfl
  have untaken : table.has (makeTarget "app".toList) = false := by decide +kernel
  obtain ⟨each, _⟩ := rule_of_link_step view [] site "app".toList "list".toList reads
  obtain ⟨_, rules, _⟩ := each table untaken
  obtain ⟨_, fewer, _⟩ := each {} rfl
  refine ⟨reads, untaken, ?_, ?_⟩
  · rw [rules]
    decide +kernel
  · rw [fewer]
    decide +kernel

end Step

end MakeRules
