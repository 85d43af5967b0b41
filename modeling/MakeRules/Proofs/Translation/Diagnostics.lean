import MakeRules.Proofs.Log.Record
import MakeRules.Proofs.Rule.OfStep
import MakeRules.Proofs.Translation.Run
import Mathlib.Data.List.Flatten

/-! Where diagnostics point.

What a record reports depends on the step that it begins and on the files, not on the table. It is
at most one diagnostic, on the line of the marker or of the step's command. No two steps share a
record, so the lines of all diagnostics are in the order of the log.
-/

set_option autoImplicit false

namespace MakeRules

/-- A record that a diagnostic of a dispatch can point at. -/
inductive Dispatch.Blames (dispatch : Dispatch) : Record → Prop where
  | marker (marks : isStepMarker dispatch.record.text = true) : Blames dispatch dispatch.record
  | command {site : Site} (sited : dispatch.outcome.site? = some site) :
      Blames dispatch site.command

/-- The record belongs to the step, so no other dispatch has it. -/
theorem Dispatch.Blames.mem_records {dispatch : Dispatch} {record : Record}
    (blames : dispatch.Blames record) : record ∈ dispatch.records := by
  cases blames with
  | marker => exact List.mem_cons_self
  | @command site sited =>
    have taken : dispatch.outcome.taken = site.behindMarker := by rw [Outcome.taken_eq, sited]; rfl
    simp [Dispatch.records, taken, Site.behindMarker]

section

variable (view : FileView) (file : Text) (table other : RuleTable)

/-- What a record reports behind a table. -/
def Dispatch.reports (dispatch : Dispatch) : List Diagnostic :=
  (dispatch.contribute view file table).diagnostics

/-- What a step reports does not depend on the table. -/
theorem Step.diagnostics_contribute (step : Step) :
    (step.contribute view file table).diagnostics =
      (step.contribute view file other).diagnostics := by
  unfold contribute
  split
  · rfl
  · rfl
  · rfl
  · split <;> rfl
  · rfl
  · dsimp only
    split <;> rfl
  · rfl

theorem Dispatch.reports_eq (dispatch : Dispatch) :
    dispatch.reports view file table = dispatch.reports view file other := by
  unfold reports contribute
  split
  · rfl
  · cases dispatch.outcome with
    | step found => exact found.diagnostics_contribute view file table other
    | _ => rfl

theorem flatMap_diagnostics_contributions (dispatches : List Dispatch) :
    (contributions view file table dispatches).flatMap (·.diagnostics) =
      dispatches.flatMap (·.reports view file other) := by
  induction dispatches generalizing table with
  | nil => rfl
  | cons dispatch rest ih =>
    rw [contributions, List.flatMap_cons, List.flatMap_cons, ih,
      ← dispatch.reports_eq view file table other]
    rfl

theorem diagnostics_contributions (dispatches : List Dispatch) :
    (contributions view file table dispatches).flatMap (·.diagnostics) =
      (contributions view file other dispatches).flatMap (·.diagnostics) := by
  rw [flatMap_diagnostics_contributions view file table table,
    flatMap_diagnostics_contributions view file other table]

end

section

variable (view : FileView) (file : Text) (table : RuleTable)

/-- The diagnostic of a step that is read points at its command. -/
theorem Step.exists_site_of_mem_diagnostics (step : Step) :
    (step.contribute view file table).diagnostics = [] ∨
      ∃ site diagnostic, step.site? = some site ∧
        (step.contribute view file table).diagnostics = [diagnostic] ∧
        diagnostic.span = ⟨file, site.command.line⟩ := by
  have adds := step.adds_contribute view file table
  generalize step.contribute view file table = added at adds ⊢
  cases adds with
  | leftOut sited => exact .inr ⟨_, _, sited, rfl, rfl⟩
  | unlisted => exact .inr ⟨_, _, rfl, rfl, rfl⟩
  | objects | listed | postLink => exact .inl rfl

/-- A record reports nothing, or one diagnostic on the line of a record that is to blame. -/
theorem Log.exists_blamed_of_mem_run {log : Log} {dispatch : Dispatch}
    (member : dispatch ∈ log.run) :
    dispatch.reports view file table = [] ∨
      ∃ record diagnostic, dispatch.Blames record ∧ dispatch.reports view file table = [diagnostic] ∧
        diagnostic.span = ⟨file, record.line⟩ := by
  obtain ⟨dispatched, text⟩ := mem_run_iff.1 member
  obtain ⟨behind, same, _⟩ := exists_behind_of_mem_dispatch dispatched
  unfold Dispatch.reports
  cases outcome : dispatch.outcome with
  | unclaimed =>
    rw [contribute_of_unclaimed view file text table outcome]
    exact .inl rfl
  | skipped kind fault =>
    have blames : dispatch.Blames (fault.blamed dispatch.record) := by
      have marked : StepKind.ofText? dispatch.record.text = some kind := by
        rw [← kind?_classify dispatch.record behind, ← same, outcome]
        rfl
      have marks : isStepMarker dispatch.record.text = true := by rw [isStepMarker, marked]; rfl
      -- only unequal numbers are found out after the command
      cases fault with
      | pairMismatch => exact .command (by rw [outcome]; rfl)
      | _ => exact .marker marks
    rw [contribute_of_skipped view file text table outcome]
    exact .inr ⟨_, _, blames, rfl, rfl⟩
  | step found =>
    rw [contribute_of_step view file text table outcome]
    rcases found.exists_site_of_mem_diagnostics view file table with
      nothing | ⟨site, diagnostic, sited, one, span⟩
    · exact .inl nothing
    · exact .inr ⟨_, diagnostic, .command (outcome ▸ sited), one, span⟩

theorem Log.flatMap_records_run_sublist (log : Log) :
    (log.run.flatMap Dispatch.records).Sublist log := by
  have part : (log.run.flatMap Dispatch.records).Sublist (log.dispatch.flatMap Dispatch.records) :=
    List.filter_sublist.flatMap Dispatch.records
  rwa [flatMap_records_dispatch] at part

/-- The lines of the diagnostics are those of some of the records, in order. -/
theorem exists_blamed_sublist {dispatches : List Dispatch}
    (each : ∀ dispatch ∈ dispatches, dispatch.reports view file table = [] ∨
      ∃ record diagnostic, dispatch.Blames record ∧ dispatch.reports view file table = [diagnostic] ∧
        diagnostic.span = ⟨file, record.line⟩) :
    ∃ blamed : List Record, blamed.Sublist (dispatches.flatMap Dispatch.records) ∧
      (dispatches.flatMap (·.reports view file table)).map (·.span.line) = blamed.map (·.line) := by
  induction dispatches with
  | nil => exact ⟨[], .slnil, rfl⟩
  | cons dispatch rest ih =>
    obtain ⟨first, later⟩ := List.forall_mem_cons.1 each
    obtain ⟨blamed, part, lines⟩ := ih later
    rw [List.flatMap_cons, List.flatMap_cons, List.map_append, lines]
    -- at most one record of each dispatch, and no two dispatches share one
    rcases first with nothing | ⟨record, diagnostic, blames, one, span⟩
    · rw [nothing]
      exact ⟨blamed, part.trans (List.sublist_append_right ..), rfl⟩
    · rw [one]
      have own : [record].Sublist dispatch.records := List.singleton_sublist.2 blames.mem_records
      exact ⟨record :: blamed, own.append part, by simp [span]⟩

end

namespace Translation

variable (view : FileView) (options : TranslationOptions) (table : RuleTable)

theorem diagnostics_ofText (text : Text) :
    (ofText view options text).diagnostics =
      (Log.ofText text).run.flatMap (·.reports view options.file table) := by
  rw [← flatMap_diagnostics_contributions view options.file {} table]
  exact congrArg diagnostics (ofLog_eq_run view options (Log.ofText text))

/-- The diagnostics of a log are what its records report, behind whatever table. They are on lines
of its text, in order and never two on one line. Each is on the line of a marker, or on that of the
command of the step that it is about. -/
theorem lines_of_diagnostics_ascend (text : Text) :
    let run := (Log.ofText text).run
    let diagnostics := (ofText view options text).diagnostics
    diagnostics = run.flatMap (·.reports view options.file table) ∧
      (∃ numbers : List Nat, diagnostics.map (·.span.line) = numbers.map Decimal.ofNat ∧
        numbers.Pairwise (· < ·) ∧
        ∀ number ∈ numbers, 1 ≤ number ∧ number ≤ text.lines.length) ∧
      ∀ dispatch ∈ run, ∀ diagnostic ∈ dispatch.reports view options.file table,
        ∃ record, dispatch.Blames record ∧ diagnostic.span = ⟨options.file, record.line⟩ := by
  intro run diagnostics
  have whole : diagnostics = run.flatMap (·.reports view options.file table) :=
    diagnostics_ofText view options table text
  have each := fun dispatch (member : dispatch ∈ run) =>
    Log.exists_blamed_of_mem_run view options.file table member
  refine ⟨whole, ?_, fun dispatch member diagnostic reported => ?_⟩
  · obtain ⟨blamed, part, lines⟩ := exists_blamed_sublist view options.file table each
    rw [whole, lines]
    exact Log.exists_numbers_of_sublist (part.trans (Log.ofText text).flatMap_records_run_sublist)
  · rcases each dispatch member with nothing | ⟨record, other, blames, one, span⟩
    · rw [nothing] at reported
      cases reported
    · rw [one] at reported
      obtain rfl := List.mem_singleton.1 reported
      exact ⟨record, blames, span⟩

end Translation

end MakeRules
