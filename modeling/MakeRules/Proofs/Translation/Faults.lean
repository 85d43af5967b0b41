import MakeRules.Proofs.Rule.OfStep
import MakeRules.Proofs.Translation.Run

/-! Steps that are left out of a translation, and steps that are not.

A step with a fault, be it of its records or of the files that it names, adds an error and
nothing else. Behind any other step all its targets have rules.
-/

set_option autoImplicit false

namespace MakeRules

theorem StepFault.severity_code (fault : StepFault) : fault.code.severity = .error := by
  cases fault <;> rfl

theorem OutputFileMap.Fault.severity_code (fault : Fault) : fault.code.severity = .error := by
  cases fault <;> rfl

section

variable {view : FileView} {step : Step}

/-- The one fault that is no error, a link without a file list, leaves no step out. -/
theorem Step.severity_code_of_fault? {fault : FileFault} (faulty : step.fault? view = some fault) :
    fault.code.severity = .error := by
  unfold fault? at faulty
  split at faulty
  · cases faulty
    rfl
  · split at faulty
    · cases faulty
    · cases faulty
      exact OutputFileMap.Fault.severity_code _
  · dsimp only at faulty
    split at faulty
    · cases faulty
    · cases faulty
      rfl
  · cases faulty

end

namespace Dispatch

/-- Whether a record begins a step that is left out. -/
def leftOut (view : FileView) (dispatch : Dispatch) : Bool :=
  match dispatch.outcome with
  | .unclaimed => false
  | .skipped .. => true
  | .step step => (step.fault? view).isSome

variable {view : FileView} {dispatch : Dispatch}
variable (text : dispatch.record.isBlank = false) (file : Text) (table : RuleTable)

include text

theorem contribute_of_leftOut (leftOut : dispatch.leftOut view = true) :
    ∃ diagnostic : Diagnostic, diagnostic.severity = .error ∧
      dispatch.contribute view file table =
        { echo := some dispatch.record.text, diagnostics := [diagnostic], table } := by
  unfold Dispatch.leftOut at leftOut
  cases outcome : dispatch.outcome with
  | unclaimed => simp [outcome] at leftOut
  | skipped kind fault =>
    refine ⟨_, ?_, contribute_of_skipped view file text table outcome⟩
    exact fault.severity_code
  | step step =>
    obtain ⟨fault, faulty⟩ : ∃ fault, step.fault? view = some fault := by
      simpa [outcome, Option.isSome_iff_exists] using leftOut
    have adds := step.adds_contribute view file table
    rw [contribute_of_step view file text table outcome]
    generalize step.contribute view file table = added at adds ⊢
    -- only a step that is left out has a fault, and it adds no more than that
    cases adds with
    | leftOut _ found =>
      refine ⟨_, ?_, rfl⟩
      exact Step.severity_code_of_fault? found
    | objects _ clean => cases clean.symm.trans faulty
    | listed reads => simp [Step.fault?, reads] at faulty
    | unlisted | postLink => cases faulty

/-- A step that is not left out may still get a warning. -/
theorem diagnostics_contribute_of_not_leftOut (kept : dispatch.leftOut view = false) :
    ∃ warning : Option Diagnostic, (∀ diagnostic ∈ warning, diagnostic.severity = .warning) ∧
      (dispatch.contribute view file table).diagnostics = warning.toList := by
  unfold leftOut at kept
  cases outcome : dispatch.outcome with
  | unclaimed =>
    rw [contribute_of_unclaimed view file text table outcome]
    exact ⟨none, nofun, rfl⟩
  | skipped => simp [outcome] at kept
  | step step =>
    have clean : step.fault? view = none := by simpa [outcome] using kept
    have adds := step.adds_contribute view file table
    rw [contribute_of_step view file text table outcome]
    generalize step.contribute view file table = added at adds ⊢
    cases adds with
    | leftOut _ faulty => cases clean.symm.trans faulty
    | @unlisted site output =>
      refine ⟨some ((FileFault.fileListOptionMissing output).diagnostic file site), ?_, rfl⟩
      intro diagnostic member
      cases member
      rfl
    | objects | listed | postLink => exact ⟨none, nofun, rfl⟩

/-- All that a record reports, and what it does to the table with an error and without. -/
theorem exists_reported (view : FileView) : ∃ reported : Option Diagnostic,
    let added := dispatch.contribute view file table
    added.diagnostics = reported.toList ∧
      ((∃ diagnostic ∈ reported, diagnostic.severity = .error) ↔ dispatch.leftOut view = true) ∧
      (dispatch.leftOut view = true → added.table = table ∧ added.recipe = []) ∧
      (dispatch.leftOut view = false → ∀ step, dispatch.outcome = .step step →
        ∀ target ∈ step.targets view, added.table.has target = true) := by
  cases leftOut : dispatch.leftOut view with
  | true =>
    obtain ⟨diagnostic, error, added⟩ := contribute_of_leftOut text file table leftOut
    refine ⟨some diagnostic, ?_⟩
    rw [added]
    exact ⟨rfl, by simp [error], fun _ => ⟨rfl, rfl⟩, nofun⟩
  | false =>
    obtain ⟨warning, severity, added⟩ :=
      diagnostics_contribute_of_not_leftOut text file table leftOut
    refine ⟨warning, added, ⟨?_, nofun⟩, nofun, ?_⟩
    · rintro ⟨diagnostic, member, error⟩
      cases error.symm.trans (severity diagnostic member)
    · intro _ step outcome target member
      have clean : step.fault? view = none := by simpa [Dispatch.leftOut, outcome] using leftOut
      rw [contribute_of_step view file text table outcome, RuleTable.has_iff,
        Step.mem_targets_contribute view file table clean]
      exact .inr member

end Dispatch

namespace Translation

variable (view : FileView) (options : TranslationOptions)

theorem ofContributions_concat (before : List Dispatch) (dispatch : Dispatch) :
    let now := ofContributions options (contributions view options.file {} before)
    let next := ofContributions options (contributions view options.file {} (before ++ [dispatch]))
    let added := dispatch.contribute view options.file now.table
    next.table = added.table ∧
      next.makefile.aggregate.recipe = now.makefile.aggregate.recipe ++ added.recipe ∧
      next.diagnostics = now.diagnostics ++ added.diagnostics := by
  intro now next added
  have behind : contributions view options.file {} (before ++ [dispatch]) =
      contributions view options.file {} before ++ [added] := by
    have table : now.table = tableAfter view options.file {} before := getLast?_contributions ..
    rw [contributions_append, ← table]
    rfl
  refine ⟨?_, ?_, ?_⟩ <;> simp [next, now, behind, ofContributions]

/-- A record of a log adds at most one diagnostic. It is an error just if the step is left out,
and then nothing else is added but the comment; otherwise all targets of the step have rules. -/
theorem left_out_or_registered {text : Text} {before later : List Dispatch} {dispatch : Dispatch}
    (run : (Log.ofText text).run = before ++ dispatch :: later) :
    let after (dispatches : List Dispatch) :=
      ofContributions options (contributions view options.file {} dispatches)
    let now := after before
    let next := after (before ++ [dispatch])
    ofText view options text = after (before ++ dispatch :: later) ∧
      ∃ reported : Option Diagnostic,
        next.diagnostics = now.diagnostics ++ reported.toList ∧
        ((∃ diagnostic ∈ reported, diagnostic.severity = .error) ↔ dispatch.leftOut view = true) ∧
        (dispatch.leftOut view = true → next.rules = now.rules ∧
          next.linkedProducts = now.linkedProducts ∧
          next.makefile.aggregate.recipe = now.makefile.aggregate.recipe) ∧
        (dispatch.leftOut view = false → ∀ step, dispatch.outcome = .step step →
          ∀ target ∈ step.targets view, next.table.has target = true) := by
  intro after now next
  have nonBlank : dispatch.record.isBlank = false := by
    have member : dispatch ∈ (Log.ofText text).run := by simp [run]
    exact (Log.mem_run_iff.1 member).2
  obtain ⟨table, recipe, diagnostics⟩ :
      next.table = (dispatch.contribute view options.file now.table).table ∧
        next.makefile.aggregate.recipe = now.makefile.aggregate.recipe ++
          (dispatch.contribute view options.file now.table).recipe ∧
        next.diagnostics = now.diagnostics ++
          (dispatch.contribute view options.file now.table).diagnostics :=
    ofContributions_concat view options before dispatch
  obtain ⟨reported, added, error, unchanged, registered⟩ :=
    Dispatch.exists_reported nonBlank options.file now.table view
  refine ⟨?_, reported, ?_, error, ?_, ?_⟩
  · rw [← run]
    exact ofLog_eq_run view options (Log.ofText text)
  · rw [diagnostics, added]
  · intro leftOut
    obtain ⟨same, nothing⟩ := unchanged leftOut
    rw [same] at table
    refine ⟨congrArg RuleTable.rules table, congrArg RuleTable.linkedProducts table, ?_⟩
    rw [recipe, nothing, List.append_nil]
  · rw [table]
    exact registered

/-- Behind a compile step, a link without a directory. -/
theorem left_out_or_registered_of_missing_directory :
    let view : FileView := ⟨"/".toList, fun _ => .error []⟩
    let options : TranslationOptions := { capturedAt := [] }
    let run := (Log.ofText "CompileC a.o a.c normal\ncd /d\ncc a.c\nLd a normal".toList).run
    let link : Dispatch :=
      ⟨⟨"Ld a normal".toList, .ofNat 4⟩, .skipped .link .missingDirectoryChange⟩
    let after (dispatches : List Dispatch) :=
      ofContributions options (contributions view options.file {} dispatches)
    run = run.take 1 ++ [link] ∧ link.leftOut view = true ∧
      (after run).rules = (after (run.take 1)).rules ∧
      (after run).rules.map (·.target) = ["a.o".toList] := by
  intro view options run link after
  have split : run = run.take 1 ++ [link] := by decide +kernel
  obtain ⟨_, _, _, _, unchanged, _⟩ := left_out_or_registered view options split
  refine ⟨split, rfl, ?_, by decide +kernel⟩
  rw [← (unchanged rfl).1, ← split]

end Translation

end MakeRules
