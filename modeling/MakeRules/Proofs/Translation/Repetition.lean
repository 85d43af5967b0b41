import MakeRules.Proofs.Log.Renumbering
import MakeRules.Proofs.Translation.Diagnostics
import MakeRules.Proofs.Translation.Targets

/-! Logs that are translated twice in a row.

What a step reports depends on its records and files, not on the table. Its rules do depend on the
table, but a step whose targets all have rules adds none, and a product that is there already is
not added again. So the second time adds diagnostics and nothing else to a makefile's rules.
-/

set_option autoImplicit false

namespace MakeRules

section

variable (number : Decimal → Decimal)

def Diagnostic.renumber (diagnostic : Diagnostic) : Diagnostic :=
  { diagnostic with span := ⟨diagnostic.span.file, number diagnostic.span.line⟩ }

/-- Of a contribution, only the diagnostics have numbers. -/
def Contribution.renumber (added : Contribution) : Contribution :=
  { added with diagnostics := added.diagnostics.map (Diagnostic.renumber number) }

theorem flatMap_diagnostics_renumber (added : List Contribution) :
    (added.map (Contribution.renumber number)).flatMap (·.diagnostics) =
      (added.flatMap (·.diagnostics)).map (Diagnostic.renumber number) := by
  rw [List.flatMap_map, List.map_flatMap]
  rfl

variable (view : FileView) (file : Text) (table : RuleTable)

theorem Step.contribute_renumber (step : Step) :
    (step.renumber number).contribute view file table =
      (step.contribute view file table).renumber number := by
  cases step with
  | compileC | swiftCompile | postLink => rfl
  | swiftDriver site invocation mapPath =>
    cases mapPath with
    | none => rfl
    | some path =>
      have directory : (site.renumber number).change.directory = site.change.directory := rfl
      simp only [renumber, contribute, directory]
      split <;> rfl
  | link site output fileList =>
    cases fileList with
    | none => rfl
    | some path =>
      have directory : (site.renumber number).change.directory = site.change.directory := rfl
      simp only [renumber, contribute, directory]
      split <;> rfl

theorem Dispatch.contribute_renumber (dispatch : Dispatch) :
    (dispatch.renumber number).contribute view file table =
      (dispatch.contribute view file table).renumber number := by
  obtain ⟨record, outcome⟩ := dispatch
  have text : (record.renumber number).isBlank = record.isBlank := rfl
  simp only [contribute, renumber, text]
  split
  · rfl
  · cases outcome with
    | unclaimed => rfl
    | skipped kind fault => cases fault <;> rfl
    | step found =>
      simp only [Outcome.renumber, Step.contribute_renumber]
      rfl

theorem contributions_renumber (dispatches : List Dispatch) :
    contributions view file table (dispatches.map (Dispatch.renumber number)) =
      (contributions view file table dispatches).map (Contribution.renumber number) := by
  induction dispatches generalizing table with
  | nil => rfl
  | cons dispatch rest ih =>
    rw [List.map_cons, contributions, contributions, Dispatch.contribute_renumber, List.map_cons,
      ← ih]
    rfl

end

namespace Step

variable (number : Decimal → Decimal) (view : FileView) (step : Step)

theorem fault?_renumber : (step.renumber number).fault? view = step.fault? view := by
  cases step with
  | swiftDriver _ _ mapPath => cases mapPath <;> rfl
  | link _ _ fileList => cases fileList <;> rfl
  | _ => rfl

theorem targets_renumber : (step.renumber number).targets view = step.targets view := by
  cases step with
  | swiftDriver _ _ mapPath => cases mapPath <;> rfl
  | _ => rfl

theorem product?_renumber : (step.renumber number).product? = step.product? := by
  cases step <;> rfl

end Step

theorem Dispatch.kept?_renumber (number : Decimal → Decimal) (view : FileView)
    (dispatch : Dispatch) :
    (dispatch.renumber number).kept? view = (dispatch.kept? view).map (Step.renumber number) := by
  obtain ⟨record, outcome⟩ := dispatch
  cases outcome with
  | unclaimed | skipped => rfl
  | step found =>
    simp only [renumber, Outcome.renumber, kept?, leftOut, Step.fault?_renumber]
    by_cases faulty : (found.fault? view).isSome = true <;> simp [faulty]

theorem Log.filterMap_kept?_renumber (number : Decimal → Decimal) (view : FileView)
    (dispatches : List Dispatch) :
    (dispatches.map (Dispatch.renumber number)).filterMap (·.kept? view) =
      (dispatches.filterMap (·.kept? view)).map (Step.renumber number) := by
  simp only [List.filterMap_map, Function.comp_def, Dispatch.kept?_renumber, List.map_filterMap]

section

variable {view : FileView} (file : Text) (table : RuleTable)
variable {dispatches : List Dispatch}
variable (texts : ∀ dispatch ∈ dispatches, dispatch.record.isBlank = false)

include texts

/-- Steps whose targets all have rules add no rule. -/
theorem rules_tableAfter_of_registered
    (registered : ∀ step ∈ dispatches.filterMap (·.kept? view), ∀ target ∈ step.targets view,
      target ∈ table.rules.map (·.target)) :
    (tableAfter view file table dispatches).rules = table.rules := by
  have added := rules_tableAfter view file table dispatches
  have distinct := (tableAfter view file table dispatches).targets_nodup
  have targets : ∀ target ∈ (tableAfter view file table dispatches).rules.map (·.target),
      target ∈ table.rules.map (·.target) := by
    intro target member
    rcases (mem_targets_tableAfter file table texts).1 member with before | ⟨step, kept, named⟩
    · exact before
    · exact registered step kept target named
  rw [added] at distinct targets ⊢
  rw [List.map_append, List.nodup_append] at distinct
  -- a further rule would have a target that has a rule
  rw [List.append_right_eq_self, List.eq_nil_iff_forall_not_mem]
  intro rule member
  have shown := List.mem_map_of_mem (f := Rule.target) member
  exact distinct.2.2 _ (targets _ (by simp [shown])) _ shown rfl

/-- Links whose outputs are products already add no product. -/
theorem linkedProducts_tableAfter_of_linked
    (linked : ∀ step ∈ dispatches.filterMap (·.kept? view), ∀ product ∈ step.product?,
      Escape.makeTarget product ∈ table.linkedProducts) :
    (tableAfter view file table dispatches).linkedProducts = table.linkedProducts := by
  have nothing : (((dispatches.filterMap (·.kept? view)).filterMap (·.product?)).map
      Escape.makeTarget).removeAll table.linkedProducts = [] := by
    rw [List.removeAll, List.filter_eq_nil_iff]
    intro target member
    obtain ⟨product, made, rfl⟩ := List.mem_map.1 member
    obtain ⟨step, kept, makes⟩ := List.mem_filterMap.1 made
    simpa using linked step kept product makes
  rw [linkedProducts_tableAfter file table texts, List.eraseDups_append, nothing,
    eraseDups_of_nodup table.linkedProducts_nodup, List.eraseDups_nil, List.append_nil]

end

namespace Log

theorem run_append {log : Log} (whole : log.Whole) (more : Log) :
    (log ++ more).run = log.run ++ more.run := by
  rw [run, dispatch_append whole, List.filter_append, run, run]

theorem run_renumber (number : Decimal → Decimal) (log : Log) :
    run (log.map (Record.renumber number)) = log.run.map (Dispatch.renumber number) := by
  rw [run, dispatch_renumber, List.filter_map, run]
  rfl

/-- A text that ends with a line feed and stands there twice gives its records twice, and those
of its second occurrence have the numbers of the lines behind the first. -/
theorem ofText_append_self {text : Text} (ended : text.getLast? = some '\n') :
    ofText (text ++ text) = ofText text ++
      (ofText text).map (Record.renumber (Decimal.plus (.ofNat text.lines.length))) := by
  rw [ofText_append ended, ofText, map_renumber_ofLines]
  rfl

end Log

namespace Translation

variable (view : FileView) (options : TranslationOptions)

/-- A log that stands there twice gives the rules and the products of one, and its diagnostics
twice, the second time with the numbers of the lines behind the first. -/
theorem translated_twice {text : Text} (ended : text.getLast? = some '\n')
    (whole : (Log.ofText text).Whole) :
    let once := ofText view options text
    let twice := ofText view options (text ++ text)
    twice.rules = once.rules ∧ twice.linkedProducts = once.linkedProducts ∧
      twice.diagnostics = once.diagnostics ++
        once.diagnostics.map (Diagnostic.renumber (Decimal.plus (.ofNat text.lines.length))) := by
  intro once twice
  let number := Decimal.plus (.ofNat text.lines.length)
  let run := (Log.ofText text).run
  have again : (Log.ofText (text ++ text)).run = run ++ run.map (Dispatch.renumber number) := by
    rw [Log.ofText_append_self ended, Log.run_append whole, Log.run_renumber]
  have table : twice.table =
      tableAfter view options.file once.table (run.map (Dispatch.renumber number)) := by
    have first : once.table = _ := table_ofText view options text
    have second : twice.table = _ := table_ofText view options (text ++ text)
    rw [second, again, tableAfter_append, first]
  have texts : ∀ dispatch ∈ run.map (Dispatch.renumber number), dispatch.record.isBlank = false := by
    intro dispatch member
    obtain ⟨other, found, rfl⟩ := List.mem_map.1 member
    exact (Log.isBlank_of_mem_run found : other.record.isBlank = false)
  refine ⟨?_, ?_, ?_⟩
  · rw [rules, rules, table]
    apply rules_tableAfter_of_registered _ _ texts
    intro step member target named
    rw [Log.filterMap_kept?_renumber] at member
    obtain ⟨kept, found, rfl⟩ := List.mem_map.1 member
    rw [Step.targets_renumber] at named
    exact (mem_targets_rules_ofText view options text).2 ⟨kept, found, named⟩
  · rw [linkedProducts, linkedProducts, table]
    apply linkedProducts_tableAfter_of_linked _ _ texts
    intro step member product made
    rw [Log.filterMap_kept?_renumber] at member
    obtain ⟨kept, found, rfl⟩ := List.mem_map.1 member
    rw [Step.product?_renumber] at made
    have products : once.table.linkedProducts = _ := linkedProducts_ofText view options text
    rw [products]
    exact List.mem_map_of_mem (Log.mem_products_iff.2 ⟨kept, found, made⟩)
  · let dispatches := (Log.ofText text).dispatch
    have gathered : twice.diagnostics = (contributions view options.file {}
        (dispatches ++ dispatches.map (Dispatch.renumber number))).flatMap (·.diagnostics) := by
      rw [← Log.dispatch_renumber, ← Log.dispatch_append whole, ← Log.ofText_append_self ended]
      rfl
    rw [gathered, contributions_append, List.flatMap_append, contributions_renumber,
      flatMap_diagnostics_renumber,
      diagnostics_contributions view options.file (tableAfter view options.file {} dispatches) {}]
    rfl

/-- In the second pass the first link finds a rule for its prerequisite, and changes nothing. -/
theorem translated_twice_of_two_links :
    let text := ("CompileC a.o normal\nLd app normal\n  cd /d\n  ld -filelist list\n" ++
      "Ld part normal\n  cd /d\n  ld -o part\n").toList
    let view : FileView := ⟨"/".toList, fun _ => .ok "part\na.o\n".toList⟩
    let once := ofText view { capturedAt := [] } text
    let twice := ofText view { capturedAt := [] } (text ++ text)
    text.getLast? = some '\n' ∧ (Log.ofText text).Whole ∧
      once.rules.map (·.prerequisites) = [["a.o".toList], []] ∧ twice.rules = once.rules ∧
      twice.linkedProducts = once.linkedProducts ∧
      once.diagnostics.map (·.span.line) = [1, 7].map Decimal.ofNat ∧
      twice.diagnostics.map (·.span.line) = [1, 7, 8, 14].map Decimal.ofNat := by
  intro text view once twice
  have ended : text.getLast? = some '\n' := by decide
  have whole : (Log.ofText text).Whole := by decide +kernel
  obtain ⟨rules, products, diagnostics⟩ := translated_twice view { capturedAt := [] } ended whole
  refine ⟨ended, whole, by decide +kernel, rules, products, by decide +kernel, ?_⟩
  rw [diagnostics, List.map_append]
  decide +kernel

end Translation

end MakeRules
