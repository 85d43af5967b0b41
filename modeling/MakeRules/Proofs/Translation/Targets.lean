import MakeRules.Proofs.Escape.Decoding
import MakeRules.Proofs.Translation.Faults
import MakeRules.Proofs.Translation.Rules

/-! The targets and the products of a makefile, and the steps that name them.

A step that is not left out has a rule for each of its targets, be it its own or that of a step
before it. The output of a link is a product unless it is an object. The aggregate rule stands
apart from the table, so nothing keeps a step from naming its target once more.
-/

set_option autoImplicit false

namespace MakeRules

open Escape

namespace Contribution

variable (table : RuleTable) (site : Site) (output : Text) (prerequisites : List Text)

theorem linkedProducts_ofLink :
    (ofLink table site output prerequisites).table.linkedProducts =
      if isObjectFile output then table.linkedProducts
      else (table.addLinkedProduct (makeTarget output)).linkedProducts := by
  simp only [ofLink]
  split
  · exact table.linkedProducts_register _
  · simp [RuleTable.linkedProducts_addLinkedProduct, RuleTable.acceptsProduct]

/-- The output of a link counts as a product where it is not an object. -/
theorem eraseDups_linkedProducts_ofLink_append (later : List Text) :
    ((ofLink table site output prerequisites).table.linkedProducts ++ later).eraseDups =
      (table.linkedProducts ++
        (((some output).filter fun output => !isObjectFile output).toList.map makeTarget ++
          later)).eraseDups := by
  rw [linkedProducts_ofLink]
  cases object : isObjectFile output with
  | true => simp [Option.filter_some, object]
  | false =>
    have product : isObjectFile (makeTarget output) = false := by
      rw [isObjectFile_makeTarget, object]
    simpa [Option.filter_some, object] using table.eraseDups_addLinkedProduct_append product later

end Contribution

namespace Step

/-- The output of a link, unless it is an object. -/
def product? (step : Step) : Option Text :=
  step.output?.filter fun output => !isObjectFile output

variable {view : FileView} {step : Step} (clean : step.fault? view = none)
variable (file : Text) (table : RuleTable)

include clean

theorem eraseDups_linkedProducts_contribute_append (later : List Text) :
    ((step.contribute view file table).table.linkedProducts ++ later).eraseDups =
      (table.linkedProducts ++ (step.product?.toList.map makeTarget ++ later)).eraseDups := by
  have adds := step.adds_contribute view file table
  generalize step.contribute view file table = added at adds ⊢
  cases adds with
  | leftOut _ faulty => cases clean.symm.trans faulty
  | objects _ _ unlinked => simp [Contribution.ofRules, product?, unlinked]
  | unlisted | listed => exact Contribution.eraseDups_linkedProducts_ofLink_append ..
  | postLink => simp [product?, output?]

end Step

namespace Dispatch

/-- The step of a record, unless it is left out. -/
def kept? (view : FileView) (dispatch : Dispatch) : Option Step :=
  match dispatch.outcome with
  | .step step => if dispatch.leftOut view then none else some step
  | _ => none

variable {view : FileView} {dispatch : Dispatch}

theorem outcome_of_kept? {step : Step} (kept : dispatch.kept? view = some step) :
    dispatch.outcome = .step step := by
  unfold kept? at kept
  split at kept
  · next found outcome =>
    obtain ⟨_, rfl⟩ : _ ∧ found = step := by simpa using kept
    exact outcome
  · cases kept

variable (text : dispatch.record.isBlank = false) (file : Text) (table : RuleTable)

include text

theorem table_contribute_of_kept?_eq_none (none_kept : dispatch.kept? view = none) :
    (dispatch.contribute view file table).table = table := by
  cases outcome : dispatch.outcome with
  | unclaimed => rw [contribute_of_unclaimed view file text table outcome]
  | skipped => rw [contribute_of_skipped view file text table outcome]
  | step step =>
    have leftOut : dispatch.leftOut view = true := by simpa [kept?, outcome] using none_kept
    obtain ⟨_, _, added⟩ := contribute_of_leftOut text file table leftOut
    rw [added]

theorem table_contribute_of_kept? {step : Step} (kept : dispatch.kept? view = some step) :
    step.fault? view = none ∧
      (dispatch.contribute view file table).table = (step.contribute view file table).table := by
  unfold kept? at kept
  split at kept
  · next found outcome =>
    obtain ⟨clean, rfl⟩ : found.fault? view = none ∧ found = step := by
      simpa [leftOut, outcome] using kept
    rw [contribute_of_step view file text table outcome]
    exact ⟨clean, rfl⟩
  · cases kept

end Dispatch

namespace Log

theorem isBlank_of_mem_run {log : Log} {dispatch : Dispatch} (member : dispatch ∈ log.run) :
    dispatch.record.isBlank = false :=
  (mem_run_iff.1 member).2

/-- The steps of a log that are not left out. -/
def keptSteps (view : FileView) (log : Log) : List Step :=
  log.run.filterMap (·.kept? view)

/-- What the links of a log make, each product where it is linked first. -/
def products (view : FileView) (log : Log) : List Text :=
  ((log.keptSteps view).filterMap (·.product?)).eraseDups

theorem mem_products_iff {view : FileView} {log : Log} {product : Text} :
    product ∈ log.products view ↔ ∃ step ∈ log.keptSteps view, step.product? = some product := by
  rw [products, List.mem_eraseDups, List.mem_filterMap]

theorem nodup_products (view : FileView) (log : Log) : (log.products view).Nodup :=
  nodup_eraseDups _

end Log

section

variable {view : FileView} (file : Text) (table : RuleTable)
variable {dispatches : List Dispatch}
variable (texts : ∀ dispatch ∈ dispatches, dispatch.record.isBlank = false)

include texts

theorem mem_targets_tableAfter {target : Text} :
    target ∈ (tableAfter view file table dispatches).rules.map (·.target) ↔
      target ∈ table.rules.map (·.target) ∨
        ∃ step ∈ dispatches.filterMap (·.kept? view), target ∈ step.targets view := by
  induction dispatches generalizing table with
  | nil => simp [tableAfter]
  | cons dispatch rest ih =>
    have text := texts dispatch List.mem_cons_self
    rw [tableAfter, ih _ fun other member => texts other (List.mem_cons_of_mem _ member)]
    cases kept : dispatch.kept? view with
    | none =>
      rw [dispatch.table_contribute_of_kept?_eq_none text file table kept,
        List.filterMap_cons_none kept]
    | some step =>
      obtain ⟨clean, same⟩ := dispatch.table_contribute_of_kept? text file table kept
      rw [same, Step.mem_targets_contribute view file table clean,
        List.filterMap_cons_some kept, or_assoc]
      simp

theorem linkedProducts_tableAfter :
    (tableAfter view file table dispatches).linkedProducts =
      (table.linkedProducts ++
        ((dispatches.filterMap (·.kept? view)).filterMap (·.product?)).map
          makeTarget).eraseDups := by
  induction dispatches generalizing table with
  | nil => simp [tableAfter, eraseDups_of_nodup table.linkedProducts_nodup]
  | cons dispatch rest ih =>
    have text := texts dispatch List.mem_cons_self
    rw [tableAfter, ih _ fun other member => texts other (List.mem_cons_of_mem _ member)]
    cases kept : dispatch.kept? view with
    | none =>
      rw [dispatch.table_contribute_of_kept?_eq_none text file table kept,
        List.filterMap_cons_none kept]
    | some step =>
      obtain ⟨clean, same⟩ := dispatch.table_contribute_of_kept? text file table kept
      rw [same, step.eraseDups_linkedProducts_contribute_append clean,
        List.filterMap_cons_some kept]
      cases product : step.product? <;> simp [product]

end

/-- The targets of all rules of a makefile, that of the aggregate rule last. -/
def Makefile.targets (makefile : Makefile) : List Text :=
  makefile.rules.map (·.target) ++ [makefile.aggregate.target]

namespace Translation

variable (view : FileView) (options : TranslationOptions) (text : Text)

theorem table_ofText :
    (ofText view options text).table = tableAfter view options.file {} (Log.ofText text).run := by
  rw [ofText, ofLog_eq_run]
  exact getLast?_contributions ..

theorem mem_targets_rules_ofText {target : Text} :
    target ∈ (ofText view options text).rules.map (·.target) ↔
      ∃ step ∈ (Log.ofText text).keptSteps view, target ∈ step.targets view := by
  rw [rules, table_ofText, mem_targets_tableAfter _ _ fun _ => Log.isBlank_of_mem_run]
  simp [Log.keptSteps]

theorem linkedProducts_ofText :
    (ofText view options text).linkedProducts =
      ((Log.ofText text).products view).map makeTarget := by
  rw [linkedProducts, table_ofText, linkedProducts_tableAfter _ _ fun _ => Log.isBlank_of_mem_run]
  exact map_eraseDupsBy makeTarget_beq_makeTarget _

/-- The text has a dependency line for each rule, and for the aggregate rule behind them. The
targets between header and aggregate rule are pairwise distinct, and they are those that the steps
name which are not left out. The aggregate rule has a target of its own if and only if no such
step names its target, and it asks for itself if and only if it is named like a product of
theirs. -/
theorem targets_nodup_iff :
    let makefile := (ofText view options text).makefile
    let steps := (Log.ofText text).keptSteps view
    (ofText view options text).text =
        Makefile.headerText makefile.header makefile.aggregate.target ++
          makefile.entries.flatMap Makefile.entryText ++
          Makefile.aggregateText makefile.aggregate ∧
      (makefile.rules.map (·.target)).Nodup ∧
      (∀ target, target ∈ makefile.rules.map (·.target) ↔
        ∃ step ∈ steps, target ∈ step.targets view) ∧
      (makefile.targets.Nodup ↔ ∀ step ∈ steps, options.aggregateTarget ∉ step.targets view) ∧
      (makefile.aggregate.target ∈ makefile.aggregate.prerequisites ↔
        ∃ step ∈ steps, ∃ product ∈ step.product?,
          makeTarget product = options.aggregateTarget) := by
  intro makefile steps
  have shown : makefile.rules = (ofText view options text).rules := rules_makefile_ofText ..
  have distinct : (makefile.rules.map (·.target)).Nodup := by
    rw [shown]
    exact (ofText view options text).table.targets_nodup
  have named : ∀ target, target ∈ makefile.rules.map (·.target) ↔
      ∃ step ∈ steps, target ∈ step.targets view := by
    intro target
    rw [shown]
    exact mem_targets_rules_ofText view options text
  refine ⟨makefile.render_eq_texts, distinct, named, ?_, ?_⟩
  · have apart : makefile.targets.Nodup ↔
        options.aggregateTarget ∉ makefile.rules.map (·.target) := by
      refine ⟨fun nodup member => ?_, fun new => nodup_concat distinct new⟩
      exact (List.nodup_append.1 nodup).2.2 _ member _ List.mem_cons_self rfl
    rw [apart, named]
    simp only [not_exists, not_and]
  · have products : makefile.aggregate.prerequisites =
        ((Log.ofText text).products view).map makeTarget := linkedProducts_ofText view options text
    have target : makefile.aggregate.target = options.aggregateTarget := rfl
    rw [products, target, List.mem_map]
    constructor
    · rintro ⟨product, member, same⟩
      obtain ⟨step, kept, makes⟩ := Log.mem_products_iff.1 member
      exact ⟨step, kept, product, makes, same⟩
    · rintro ⟨step, kept, product, makes, same⟩
      exact ⟨product, Log.mem_products_iff.2 ⟨step, kept, makes⟩, same⟩

/-- A link makes what the aggregate rule is named for, which then asks for itself. -/
theorem targets_nodup_iff_of_link :
    let view : FileView := ⟨"/".toList, fun _ => .ok "a.o\n".toList⟩
    let makefile := (ofText view { capturedAt := [] }
      "Ld main normal\n    cd /d\n    clang -filelist list -o main\n".toList).makefile
    makefile.targets = ["main".toList, "main".toList] ∧ ¬makefile.targets.Nodup ∧
      makefile.aggregate.target ∈ makefile.aggregate.prerequisites := by
  intro view makefile
  obtain ⟨-, -, -, nodup_iff, asks_iff⟩ := targets_nodup_iff view { capturedAt := [] }
    "Ld main normal\n    cd /d\n    clang -filelist list -o main\n".toList
  refine ⟨by decide +kernel, ?_, ?_⟩
  · rw [nodup_iff]
    decide +kernel
  · rw [asks_iff]
    decide +kernel

end Translation

end MakeRules
