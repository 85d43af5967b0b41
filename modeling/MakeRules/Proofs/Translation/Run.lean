import MakeRules.Proofs.Log.Run
import MakeRules.Translation

/-! A translation is what the run of its log adds up to.

Blank records add nothing, so only the records that the loop dispatches count. Each
marker of the log is among them once, whatever the steps before it come to.
-/

set_option autoImplicit false

namespace MakeRules

variable (view : FileView) (file : Text)

/-- The table behind the contributions of some dispatches. -/
def tableAfter : RuleTable → List Dispatch → RuleTable
  | table, [] => table
  | table, dispatch :: rest => tableAfter (dispatch.contribute view file table).table rest

theorem getLast?_contributions (table : RuleTable) (dispatches : List Dispatch) :
    ((contributions view file table dispatches).getLast?.map (·.table)).getD table =
      tableAfter view file table dispatches := by
  induction dispatches generalizing table with
  | nil => rfl
  | cons dispatch rest ih =>
    rw [contributions, List.getLast?_cons, tableAfter, ← ih]
    cases (contributions view file (dispatch.contribute view file table).table rest).getLast? <;> rfl

theorem tableAfter_append (table : RuleTable) (first second : List Dispatch) :
    tableAfter view file table (first ++ second) =
      tableAfter view file (tableAfter view file table first) second := by
  induction first generalizing table with
  | nil => rfl
  | cons dispatch rest ih => exact ih _

theorem contributions_append (table : RuleTable) (first second : List Dispatch) :
    contributions view file table (first ++ second) =
      contributions view file table first ++
        contributions view file (tableAfter view file table first) second := by
  induction first generalizing table with
  | nil => rfl
  | cons dispatch rest ih =>
    rw [List.cons_append, contributions, contributions, ih, List.cons_append, tableAfter]

theorem exists_dispatch_of_mem_contributions {table : RuleTable} {dispatches : List Dispatch}
    {added : Contribution} (member : added ∈ contributions view file table dispatches) :
    ∃ dispatch ∈ dispatches, ∃ found, added = dispatch.contribute view file found := by
  induction dispatches generalizing table with
  | nil => cases member
  | cons dispatch rest ih =>
    rcases List.mem_cons.1 member with rfl | later
    · exact ⟨dispatch, List.mem_cons_self, table, rfl⟩
    · obtain ⟨other, member, found⟩ := ih later
      exact ⟨other, List.mem_cons_of_mem _ member, found⟩

theorem contribute_of_isBlank {dispatch : Dispatch} (blank : dispatch.record.isBlank = true)
    (table : RuleTable) : dispatch.contribute view file table = { table } := by
  simp [Dispatch.contribute, blank]

section

variable {dispatch : Dispatch} (text : dispatch.record.isBlank = false) (table : RuleTable)

include text

theorem contribute_of_unclaimed (outcome : dispatch.outcome = .unclaimed) :
    dispatch.contribute view file table = { echo := some dispatch.record.text, table } := by
  simp [Dispatch.contribute, text, outcome, Dispatch.diagnostics]

theorem contribute_of_skipped {kind : StepKind} {fault : StepFault}
    (outcome : dispatch.outcome = .skipped kind fault) :
    dispatch.contribute view file table = {
      echo := some dispatch.record.text
      diagnostics := [{ code := fault.code
                        message := fault.message kind
                        span := ⟨file, (fault.blamed dispatch.record).line⟩ }]
      table } := by
  simp [Dispatch.contribute, text, outcome, Dispatch.diagnostics]

theorem contribute_of_step {step : Step} (outcome : dispatch.outcome = .step step) :
    dispatch.contribute view file table =
      { step.contribute view file table with echo := some dispatch.record.text } := by
  simp [Dispatch.contribute, text, outcome]

end

section

variable (table : RuleTable) (dispatches : List Dispatch)

theorem tableAfter_filter_isBlank :
    tableAfter view file table (dispatches.filter fun dispatch => !dispatch.record.isBlank) =
      tableAfter view file table dispatches := by
  induction dispatches generalizing table with
  | nil => rfl
  | cons dispatch rest ih =>
    by_cases blank : dispatch.record.isBlank = true
    · simp [blank, ih, tableAfter, contribute_of_isBlank view file blank]
    · simp [blank, ih, tableAfter]

/-- Whatever is gathered from contributions, blank records give nothing to it. -/
theorem flatMap_contributions_filter_isBlank {α : Type} (gathered : Contribution → List α)
    (nothing : ∀ table, gathered { table } = []) :
    (contributions view file table
      (dispatches.filter fun dispatch => !dispatch.record.isBlank)).flatMap gathered =
        (contributions view file table dispatches).flatMap gathered := by
  induction dispatches generalizing table with
  | nil => rfl
  | cons dispatch rest ih =>
    by_cases blank : dispatch.record.isBlank = true
    · simp [blank, ih, contributions, contribute_of_isBlank view file blank, nothing]
    · simp [blank, ih, contributions]

end

namespace Translation

variable (options : TranslationOptions)

theorem ofLog_eq_run (log : Log) :
    ofLog view options log =
      ofContributions options (contributions view options.file {} log.run) := by
  have entries := flatMap_contributions_filter_isBlank view options.file {} log.dispatch
    (·.entries) fun _ => rfl
  have recipe := flatMap_contributions_filter_isBlank view options.file {} log.dispatch
    (·.recipe) fun _ => rfl
  have diagnostics := flatMap_contributions_filter_isBlank view options.file {} log.dispatch
    (·.diagnostics) fun _ => rfl
  simp only [ofLog, ofContributions, getLast?_contributions, Log.run, tableAfter_filter_isBlank,
    entries, recipe, diagnostics]

/-- A translation dispatches records with increasing numbers, every marker of the log among
them exactly once. No step takes a marker for its own, and the loop ends. -/
theorem dispatches_markers_once (text : Text) :
    let log := Log.ofText text
    let run := log.run
    ofText view options text =
        ofContributions options (contributions view options.file {} run) ∧
      (∀ other, (Cursor.start log).Runs other ↔ other = run) ∧
      (∀ dispatch ∈ run, dispatch.record ∈ log ∧ dispatch.record.isBlank = false) ∧
      (∃ numbers : List Nat, run.map (·.record.line) = numbers.map Decimal.ofNat ∧
        numbers.Pairwise (· < ·)) ∧
      (∀ record ∈ log, isStepMarker record.text = true →
        (run.map (·.record)).count record = 1) ∧
      (∀ dispatch ∈ run, ∀ record ∈ dispatch.outcome.taken, isStepMarker record.text = false) ∧
      run.length ≤ text.lines.length := by
  intro log run
  have part : (run.map (·.record)).Sublist log := log.map_record_run_sublist
  refine ⟨ofLog_eq_run view options log, fun other => Cursor.runs_iff, ?_, ?_, ?_, ?_, ?_⟩
  · intro dispatch member
    exact ⟨part.subset (List.mem_map_of_mem member), (Log.mem_run_iff.1 member).2⟩
  · obtain ⟨numbers, lines, increasing, _⟩ := Log.exists_numbers_of_sublist part
    exact ⟨numbers, by rwa [List.map_map] at lines, increasing⟩
  · intro record member marks
    exact List.count_eq_one_of_mem ((Log.nodup_ofText text).sublist part)
      (Log.mem_map_record_run_of_isStepMarker member marks)
  · exact fun dispatch member record taken => Log.not_isStepMarker_of_mem_taken_run member taken
  · simpa [log] using log.length_run_le

-- the first step has no command, so its directory change is dispatched after it
example : (Log.ofText "CompileC a b\ncd /d\nCompileC c d".toList).run.map (·.record.line) =
    [1, 2, 3].map Decimal.ofNat := by
  decide +kernel

end Translation

end MakeRules
