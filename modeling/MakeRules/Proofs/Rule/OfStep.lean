import MakeRules.Proofs.Rule.Table
import MakeRules.Rule.OfStep

/-! What a step adds to a table.

A step is left out for a fault of the files that it names, or it adds the rules of all its
objects, or the rule of its output, or a line of the aggregate recipe.
-/

set_option autoImplicit false

namespace MakeRules

theorem Contribution.mem_targets_ofLink (table : RuleTable) (site : Site) (output : Text)
    (prerequisites : List Text) {target : Text} :
    target ∈ (ofLink table site output prerequisites).table.rules.map (·.target) ↔
      target ∈ table.rules.map (·.target) ∨ target = Escape.makeTarget output := by
  have registered : target ∈ _ ↔ _ :=
    table.mem_targets_register (Rule.ofLink site output prerequisites)
  simp only [ofLink]
  split
  · exact registered
  · rw [RuleTable.rules_addLinkedProduct]
    exact registered

namespace Step

/-- The command that the rules of a step repeat. -/
def command : Step → Text
  | .compileC site _ => site.command.text
  | .swiftDriver _ invocation _ => invocation
  | .swiftCompile _ command _ => command
  | .link site _ _ => site.command.text
  | .postLink command => command.text

/-- The objects that a step makes, those of its file map included. -/
def objects (view : FileView) : Step → List SourceObject
  | .compileC _ files => [files]
  | .swiftCompile _ _ files => files
  | .swiftDriver site _ (some path) =>
    match OutputFileMap.read view (view.resolve site.change.directory path) with
    | .ok entries => entries
    | .error _ => []
  | _ => []

def output? : Step → Option Text
  | .link _ output _ => some output
  | _ => none

/-- The targets that a step names. -/
def targets (view : FileView) (step : Step) : List Text :=
  ((step.objects view).map (·.object) ++ step.output?.toList).map Escape.makeTarget

/-- Why a step that is read is left out nonetheless. -/
def fault? (view : FileView) : Step → Option FileFault
  | .swiftDriver _ _ none => some .mapOptionMissing
  | .swiftDriver site _ (some path) =>
    match OutputFileMap.read view (view.resolve site.change.directory path) with
    | .ok _ => none
    | .error fault => some (.map fault)
  | .link site _ (some path) =>
    let path := view.resolve site.change.directory path
    match LinkFileList.read view path with
    | .ok _ => none
    | .error reason => some (.fileListUnreadable path reason)
  | _ => none

variable (view : FileView) (file : Text) (table : RuleTable)

/-- All that a step can do to a table. -/
inductive Adds : Step → Contribution → Prop where
  | leftOut {step : Step} {site : Site} {fault : FileFault} (sited : step.site? = some site)
      (faulty : step.fault? view = some fault) : Adds step (.ofFault table file site fault)
  | objects {step : Step} {site : Site} (sited : step.site? = some site)
      (clean : step.fault? view = none) (unlinked : step.output? = none) :
      Adds step
        (.ofRules table ((step.objects view).map (Rule.ofObject site.change step.command)))
  | unlisted {site : Site} {output : Text} :
      Adds (.link site output none) { Contribution.ofLink table site output [] with
        diagnostics := [(FileFault.fileListOptionMissing output).diagnostic file site] }
  | listed {site : Site} {output path : Text} {paths : List Text}
      (reads : LinkFileList.read view (view.resolve site.change.directory path) = .ok paths) :
      Adds (.link site output (some path))
        (.ofLink table site output (LinkFileList.prerequisites table paths))
  | postLink {command : Record} :
      Adds (.postLink command) { recipe := [Escape.dollar command.text], table := table }

theorem adds_contribute (step : Step) :
    step.Adds view file table (step.contribute view file table) := by
  cases step with
  | compileC site files => exact .objects rfl rfl rfl
  | swiftCompile site command files => exact .objects rfl rfl rfl
  | swiftDriver site invocation mapPath =>
    cases mapPath with
    | none => exact .leftOut rfl rfl
    | some path =>
      cases reads : OutputFileMap.read view (view.resolve site.change.directory path) with
      | ok entries =>
        have objects : (swiftDriver site invocation (some path)).objects view = entries := by
          simp [objects, reads]
        have clean : (swiftDriver site invocation (some path)).fault? view = none := by
          simp [fault?, reads]
        simp only [contribute, reads]
        rw [← objects]
        exact .objects rfl clean rfl
      | error fault =>
        have faulty : (swiftDriver site invocation (some path)).fault? view = some (.map fault) := by
          simp [fault?, reads]
        simp only [contribute, reads]
        exact .leftOut rfl faulty
  | link site output fileList =>
    cases fileList with
    | none => exact .unlisted
    | some path =>
      cases reads : LinkFileList.read view (view.resolve site.change.directory path) with
      | ok paths =>
        simp only [contribute, reads]
        exact .listed reads
      | error reason =>
        have faulty : (link site output (some path)).fault? view =
            some (.fileListUnreadable (view.resolve site.change.directory path) reason) := by
          simp [fault?, reads]
        simp only [contribute, reads]
        exact .leftOut rfl faulty
  | postLink command => exact .postLink

/-- Behind a step that is not left out, all its targets have rules, and no others but those that
had rules before. -/
theorem mem_targets_contribute (view : FileView) (file : Text) (table : RuleTable) {step : Step}
    (clean : step.fault? view = none) {target : Text} :
    target ∈ (step.contribute view file table).table.rules.map (·.target) ↔
      target ∈ table.rules.map (·.target) ∨ target ∈ step.targets view := by
  have adds := step.adds_contribute view file table
  generalize step.contribute view file table = added at adds ⊢
  cases adds with
  | leftOut _ faulty => cases clean.symm.trans faulty
  | objects _ _ unlinked =>
    simp only [Contribution.ofRules, RuleTable.mem_targets_registerAll, targets, unlinked,
      Option.toList_none, List.append_nil, List.map_map]
    rfl
  | unlisted | listed =>
    simp only [targets, objects, output?, List.map_nil, List.nil_append, Option.toList_some,
      List.map_cons, List.mem_singleton]
    exact Contribution.mem_targets_ofLink ..
  | postLink => simp [targets, objects, output?]

end Step

end MakeRules
