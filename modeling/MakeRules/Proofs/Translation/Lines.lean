import MakeRules.Proofs.Makefile.Lines
import MakeRules.Proofs.Step.Texts
import MakeRules.Proofs.Translation.Recipes
import MakeRules.Proofs.Translation.Targets

/-! The lines of the makefile that is made from a log.

Records and file lists are read line by line, so nothing that is taken from them adds a line to
the makefile. The names in a file map are not: an object or a source of theirs that holds a
line feed breaks the rule in which it is written.
-/

set_option autoImplicit false

namespace MakeRules

open Escape

namespace LinkFileList

theorem lf_not_mem_of_mem_ofText {text path : Text} (member : path ∈ ofText text) : '\n' ∉ path := by
  obtain ⟨line, among, shown⟩ := List.mem_filterMap.1 member
  unfold Text.nonBlank? at shown
  split at shown
  · cases shown
  · obtain rfl := Option.some.inj shown
    exact fun inside => Text.lf_not_mem_of_mem_lines among (Text.mem_of_mem_trim inside)

theorem lf_not_mem_of_mem_prerequisites {view : FileView} {path : Text} {paths : List Text}
    (reads : read view path = .ok paths) (table : RuleTable) :
    ∀ prerequisite ∈ prerequisites table paths, '\n' ∉ prerequisite := by
  intro prerequisite member
  obtain ⟨listed, among, rfl⟩ := List.mem_map.1 (List.mem_eraseDups.1 member)
  rw [mem_makeTarget_iff (by decide)]
  unfold read at reads
  cases held : view.read path with
  | error reason =>
    rw [held] at reads
    cases reads
  | ok text =>
    rw [held] at reads
    obtain rfl := Except.ok.inj reads
    exact lf_not_mem_of_mem_ofText (List.mem_filter.1 among).1

end LinkFileList

section

variable {site : Site} (entered : site.change.recipePrefix = changeTo site.change.directory)
variable (directory : '\n' ∉ site.change.directory)

include directory in
theorem Site.lf_not_mem_shellText {command : Text} (called : '\n' ∉ command) :
    '\n' ∉ site.shellText command := by
  simp only [shellText, List.mem_append, not_or, mem_shell_iff (c := '\n') (by decide)]
  exact ⟨⟨⟨by decide, directory⟩, by decide⟩, called⟩

include entered directory

theorem Rule.isOnLines_ofObject_iff {command : Text} (called : '\n' ∉ command)
    (files : SourceObject) : (ofObject site.change command files).IsOnLines ↔
      '\n' ∉ files.source ∧ '\n' ∉ files.object := by
  have target : '\n' ∉ (ofObject site.change command files).target ↔ '\n' ∉ files.object := by
    rw [ofObject, mem_makeTarget_iff (by decide)]
  have prerequisites : (∀ prerequisite ∈ (ofObject site.change command files).prerequisites,
      '\n' ∉ prerequisite) ↔ '\n' ∉ files.source := by
    rw [ofObject, List.forall_mem_singleton, mem_makeTarget_iff (by decide)]
  have recipe : '\n' ∉ files.object → '\n' ∉ (ofObject site.change command files).recipe := by
    intro object
    rw [recipe_ofObject entered, mem_dollar_iff]
    simp only [List.mem_append, not_or, mem_shell_iff (c := '\n') (by decide)]
    exact ⟨⟨site.lf_not_mem_shellText directory called, by decide⟩, object⟩
  constructor
  · intro onLines
    exact ⟨prerequisites.1 onLines.prerequisites, target.1 onLines.target⟩
  · rintro ⟨source, object⟩
    exact ⟨target.2 object, prerequisites.2 source, recipe object⟩

theorem Rule.isOnLines_ofLink (called : '\n' ∉ site.command.text) {output : Text}
    (named : '\n' ∉ output) {prerequisites : List Text}
    (whole : ∀ prerequisite ∈ prerequisites, '\n' ∉ prerequisite) :
    (ofLink site output prerequisites).IsOnLines where
  target := by rwa [ofLink, mem_makeTarget_iff (by decide)]
  prerequisites := whole
  recipe := by
    rw [recipe_ofLink entered, mem_dollar_iff]
    exact site.lf_not_mem_shellText directory called

end

namespace Log

variable {text : Text} {dispatch : Dispatch} {step : Step}
variable (dispatched : dispatch ∈ (Log.ofText text).run) (outcome : dispatch.outcome = .step step)

include dispatched outcome

theorem isOnLines_of_mem_run : step.IsOnLines :=
  isOnLines_of_mem_dispatch (mem_run_iff.1 dispatched).1 outcome

theorem isOnLines_ofObject_iff {site : Site} (sited : step.site? = some site)
    (files : SourceObject) : (Rule.ofObject site.change step.command files).IsOnLines ↔
      '\n' ∉ files.source ∧ '\n' ∉ files.object := by
  have onLines := isOnLines_of_mem_run dispatched outcome
  exact Rule.isOnLines_ofObject_iff (recipePrefix_of_mem_run dispatched outcome sited)
    (onLines.directory site sited) onLines.command files

/-- A rule that a step adds is on lines of its own, or it is that of an object that a file map
names. -/
theorem isOnLines_of_mem_contribute {view : FileView} {file : Text} {table : RuleTable} {rule : Rule}
    (member : rule ∈ (step.contribute view file table).rules) :
    rule.IsOnLines ∨ ∃ site invocation path, step = .swiftDriver site invocation (some path) ∧
      ∃ files ∈ step.objects view, rule = Rule.ofObject site.change invocation files := by
  have onLines := isOnLines_of_mem_run dispatched outcome
  have adds := step.adds_contribute view file table
  generalize step.contribute view file table = added at adds member
  cases adds with
  | leftOut | postLink => cases member
  | @objects _ site sited _ _ =>
    obtain ⟨files, made, rfl⟩ := List.mem_map.1 (RuleTable.mem_of_mem_newRules member)
    -- only a driver call reads a file map, which is not read line by line
    by_cases driver : step.kind = .swiftDriver
    · right
      cases step with
      | swiftDriver shown invocation mapPath =>
        cases mapPath with
        | none => cases made
        | some path =>
          obtain rfl : shown = site := Option.some.inj sited
          exact ⟨shown, invocation, path, rfl, files, made, rfl⟩
      | _ => cases driver
    · left
      rw [isOnLines_ofObject_iff dispatched outcome sited]
      exact onLines.files driver view files made
  | @unlisted site output =>
    obtain rfl := List.mem_singleton.1 (RuleTable.mem_of_mem_newRules member)
    exact .inl (Rule.isOnLines_ofLink (recipePrefix_of_mem_run dispatched outcome rfl)
      (onLines.directory site rfl) onLines.command (onLines.output output rfl)
      (List.forall_mem_nil _))
  | @listed site output path paths reads =>
    obtain rfl := List.mem_singleton.1 (RuleTable.mem_of_mem_newRules member)
    exact .inl (Rule.isOnLines_ofLink (recipePrefix_of_mem_run dispatched outcome rfl)
      (onLines.directory site rfl) onLines.command (onLines.output output rfl)
      (LinkFileList.lf_not_mem_of_mem_prerequisites reads table))

end Log

namespace Translation

variable {view : FileView} {options : TranslationOptions} {text : Text}

/-- The rules that are made from the log alone are on lines of their own. Those of an object that
a file map names are if and only if neither the object nor its source holds a line feed. -/
theorem forall_rules_isOnLines_iff :
    (∀ rule ∈ (ofText view options text).makefile.rules, rule.IsOnLines) ↔
      ∀ dispatch ∈ (Log.ofText text).run, ∀ site invocation path,
        dispatch.outcome = .step (.swiftDriver site invocation (some path)) →
        ∀ files ∈ (Step.swiftDriver site invocation (some path)).objects view,
          Rule.ofObject site.change invocation files ∈ (ofText view options text).makefile.rules →
            '\n' ∉ files.source ∧ '\n' ∉ files.object := by
  constructor
  · intro onLines dispatch dispatched site invocation path outcome files _ shown
    exact (Log.isOnLines_ofObject_iff dispatched outcome rfl files).1 (onLines _ shown)
  · intro clean rule shown
    obtain ⟨dispatch, dispatched, step, table, outcome, added⟩ :=
      exists_contribute_of_mem_rules shown
    obtain onLines | ⟨site, invocation, path, rfl, files, made, rfl⟩ :=
      Log.isOnLines_of_mem_contribute dispatched outcome added
    · exact onLines
    · exact (Log.isOnLines_ofObject_iff dispatched outcome rfl files).2
        (clean dispatch dispatched site invocation path outcome files made shown)

theorem exists_output_of_mem_prerequisites {product : Text}
    (member : product ∈ (ofText view options text).makefile.aggregate.prerequisites) :
    ∃ dispatch ∈ (Log.ofText text).run, ∃ step output, dispatch.outcome = .step step ∧
      step.output? = some output ∧ product = makeTarget output := by
  have products : (ofText view options text).makefile.aggregate.prerequisites = _ :=
    linkedProducts_ofText view options text
  rw [products] at member
  obtain ⟨output, among, rfl⟩ := List.mem_map.1 member
  obtain ⟨step, kept, makes⟩ := Log.mem_products_iff.1 among
  obtain ⟨dispatch, dispatched, keeps⟩ := List.mem_filterMap.1 kept
  exact ⟨dispatch, dispatched, step, output, Dispatch.outcome_of_kept? keeps,
    (Option.filter_eq_some_iff.1 makes).1, rfl⟩

theorem lf_not_mem_aggregateLines {target : Text}
    (accepted : Config.requireTargetName options.aggregateTarget = .ok target) :
    ∀ line ∈ (ofText view options text).makefile.aggregateLines, '\n' ∉ line := by
  have recipe : (ofText view options text).makefile.aggregate.recipe = _ := recipe_aggregate_ofText
  rw [Makefile.aggregateLines, Makefile.ruleLines, List.forall_mem_cons,
    Makefile.lf_not_mem_dependencyLine_iff, recipe]
  refine ⟨⟨fun member => ?_, fun product member => ?_⟩, fun line member => ?_⟩
  · cases Config.isNameChar_of_requireTargetName accepted member
  · -- a rule of its target may be another's, but the log names the output of the link
    obtain ⟨dispatch, dispatched, step, output, outcome, linked, rfl⟩ :=
      exists_output_of_mem_prerequisites member
    rw [mem_makeTarget_iff (by decide)]
    exact (Log.isOnLines_of_mem_run dispatched outcome).output output linked
  · simp only [List.mem_map, List.mem_filter] at member
    obtain ⟨_, ⟨_, ⟨⟨dispatch, dispatched, rfl⟩, _⟩, rfl⟩, rfl⟩ := member
    have record : dispatch.record ∈ Log.ofText text :=
      (Log.map_record_run_sublist _).subset (List.mem_map_of_mem dispatched)
    simpa [mem_dollar_iff] using Log.lf_not_mem_of_mem_ofText record

/-- The text ends in a line feed. Line by line it is the header, one line for each comment, the lines
of each rule in order, and those of the aggregate rule. The dependency line and the recipe of a rule
are one line each, and an empty line follows them, if and only if no object that a file map names
and that has a rule, and no source of one, holds a line feed. Nothing else adds a line. -/
theorem lines_of_text_iff (view : FileView) (options : TranslationOptions) (text : Text)
    {target : Text} (accepted : Config.requireTargetName options.aggregateTarget = .ok target) :
    let translation := ofText view options text
    let header := [Makefile.title, Makefile.capturedPrefix ++ options.capturedAt.folded,
      Makefile.invocationPrefix ++ options.invocation.folded,
      Makefile.goalPrefix ++ options.aggregateTarget, []]
    let commands := ((Log.ofText text).run.map (·.record.text)).filter isPostLink
    let aggregate := Makefile.dependencyLine options.aggregateTarget translation.linkedProducts ::
      commands.map fun command => '\t' :: dollar command
    translation.text.getLast? = some '\n' ∧
      Text.splitOn '\n' translation.text =
        header ++ translation.makefile.entries.flatMap (Makefile.cutLines (Text.splitOn '\n')) ++
          aggregate ++ [[]] ∧
      (Text.splitOn '\n' translation.text =
          header ++ translation.makefile.entries.flatMap (Makefile.cutLines fun line => [line]) ++
            aggregate ++ [[]] ↔
        ∀ dispatch ∈ (Log.ofText text).run, ∀ site invocation path,
          dispatch.outcome = .step (.swiftDriver site invocation (some path)) →
          ∀ files ∈ (Step.swiftDriver site invocation (some path)).objects view,
            Rule.ofObject site.change invocation files ∈ translation.rules →
              '\n' ∉ files.source ∧ '\n' ∉ files.object) := by
  intro translation header commands aggregate
  have closed := @lf_not_mem_aggregateLines view options text target accepted
  have shownHeader : header =
      Makefile.headerLines translation.makefile.header translation.makefile.aggregate.target := by
    simp only [header, Makefile.headerLines, Text.oneLine_eq_folded]
    rfl
  have shownAggregate : aggregate = translation.makefile.aggregateLines := by
    have recipe : translation.makefile.aggregate.recipe = commands.map dollar :=
      recipe_aggregate_ofText
    simp only [aggregate, Makefile.aggregateLines, Makefile.ruleLines, recipe, List.map_map]
    rfl
  have rules : translation.makefile.rules = translation.rules := rules_makefile_ofText ..
  rw [shownHeader, shownAggregate, ← rules]
  exact ⟨translation.makefile.getLast?_render, Makefile.splitOn_render closed,
    (Makefile.splitOn_render_eq_iff closed).trans forall_rules_isOnLines_iff⟩

/-- A file map whose source goes over two lines breaks the rule of its object. -/
theorem lines_of_text_iff_of_map :
    let view : FileView :=
      ⟨"/".toList, fun _ => .ok "\x7b\"a\\nb.swift\":\x7b\"object\":\"a.o\"\x7d\x7d".toList⟩
    let options : TranslationOptions := { capturedAt := [] }
    let text := "SwiftDriver App normal\n    cd /d\n    swiftc -output-file-map map.json\n".toList
    Config.requireTargetName options.aggregateTarget = .ok "main".toList ∧
      (Text.splitOn '\n' (ofText view options text).text).drop 5 =
        ["# SwiftDriver App normal", "a.o: a", "b.swift",
          "\tcd /d && swiftc -output-file-map map.json && touch a.o", "", "main:", ""].map
            (·.toList) ∧
      ∃ dispatch ∈ (Log.ofText text).run, ∃ site invocation path,
        dispatch.outcome = .step (.swiftDriver site invocation (some path)) ∧
        ∃ files ∈ (Step.swiftDriver site invocation (some path)).objects view,
          '\n' ∈ files.source ∨ '\n' ∈ files.object := by
  intro view options text
  have accepted : Config.requireTargetName options.aggregateTarget = .ok "main".toList :=
    Config.requireTargetName_eq_ok_iff.2 ⟨rfl, by decide⟩
  obtain ⟨-, cut, layout⟩ := lines_of_text_iff view options text accepted
  refine ⟨accepted, ?_, ?_⟩
  · rw [cut]
    decide +kernel
  · by_contra none
    refine absurd (layout.2 ?_) (by decide +kernel)
    intro dispatch dispatched site invocation path outcome files made _
    exact ⟨fun inside => none ⟨dispatch, dispatched, site, invocation, path, outcome, files, made,
        .inl inside⟩,
      fun inside => none ⟨dispatch, dispatched, site, invocation, path, outcome, files, made,
        .inr inside⟩⟩

end Translation

end MakeRules
