import MakeRules.Proofs.Json.RoundTrip
import MakeRules.Proofs.Step.Texts
import MakeRules.Proofs.Translation.Diagnostics

/-! When a diagnostic is printed on one line.

A message is made of words of its own, of numbers, of what stands in the log, and of the path of a
file with the reason why the file is of no use. Only the path and the reason may go over several
lines, and so may the name of the log, which is printed in front.
-/

set_option autoImplicit false

namespace MakeRules

theorem Text.lf_not_mem_ofNat (n : Nat) : '\n' ∉ ofNat n := by
  intro member
  cases Json.isDigit_of_mem_ofNat member

namespace Decimal

theorem lf_not_mem_layout {digits : Text} (whole : '\n' ∉ digits) (point : Int) :
    '\n' ∉ layout digits point := by
  have front (count : Nat) : '\n' ∉ digits.take count := fun member =>
    whole (List.mem_of_mem_take member)
  have back (count : Nat) : '\n' ∉ digits.drop count := fun member =>
    whole (List.mem_of_mem_drop member)
  have zeros (count : Nat) : '\n' ∉ List.replicate count '0' := by simp
  unfold layout
  dsimp only
  split
  · simp [whole]
  · split
    · simp [front, back]
    · split
      · simp [whole]
      · have fraction : '\n' ∉ (if digits.length ≤ 1 then [] else '.' :: digits.drop 1) := by
          split
          · exact List.not_mem_nil
          · rw [List.mem_cons, not_or]
            exact ⟨by decide, back 1⟩
        simp only [List.mem_append, List.mem_cons, not_or]
        refine ⟨⟨front 1, fraction⟩, by decide, ?_, Text.lf_not_mem_ofNat _⟩
        split <;> decide

theorem lf_not_mem_roundedText (d : Decimal) : '\n' ∉ d.roundedText := by
  unfold roundedText
  split
  · decide
  · split
    · decide
    · exact lf_not_mem_layout (Text.lf_not_mem_ofNat _) _

theorem lf_not_mem_text (d : Decimal) : '\n' ∉ d.text := by
  have rounded := d.lf_not_mem_roundedText
  unfold text
  split
  · exact Json.lf_not_mem_signed _
  · split
    · simpa using rounded
    · exact rounded

end Decimal

theorem Diagnostic.lf_not_mem_format_iff (diagnostic : Diagnostic) :
    '\n' ∉ diagnostic.format ↔ '\n' ∉ diagnostic.span.file ∧ '\n' ∉ diagnostic.message := by
  have line := diagnostic.span.line.lf_not_mem_text
  have severity : '\n' ∉ diagnostic.severity.name := by
    cases diagnostic.severity <;> decide
  have code : '\n' ∉ diagnostic.code.name := by
    cases diagnostic.code <;> decide
  have colon : '\n' ∉ ":".toList := by decide
  have space : '\n' ∉ ": ".toList := by decide
  have opened : '\n' ∉ " [".toList := by decide
  have closed : '\n' ∉ "]".toList := by decide
  unfold format
  simp only [List.mem_append, line, severity, code, colon, space, opened, closed, or_false, not_or]

/-- What is said of a step that cannot be read has numbers and words only. -/
theorem StepFault.lf_not_mem_message (kind : StepKind) (fault : StepFault) :
    '\n' ∉ fault.message kind := by
  have title : '\n' ∉ kind.title := by cases kind <;> decide
  cases fault with
  | malformedMarker expected =>
    have paths : '\n' ∉ (if expected = 1 then "an output path".toList
        else Text.ofNat expected ++ " paths".toList) := by
      split
      · decide
      · rw [List.mem_append, not_or]
        exact ⟨Text.lf_not_mem_ofNat _, by decide⟩
    unfold message
    dsimp only
    simp only [List.mem_append, not_or]
    exact ⟨⟨⟨⟨by decide, paths⟩, by decide⟩, title⟩, by decide⟩
  | missingDirectoryChange | missingCommand =>
    unfold message
    rw [List.mem_append, not_or]
    exact ⟨title, by decide⟩
  | pairMismatch site sources objects =>
    unfold message
    simp only [List.mem_append, not_or]
    exact ⟨⟨⟨⟨by decide, Text.lf_not_mem_ofNat _⟩, by decide⟩, Text.lf_not_mem_ofNat _⟩, by decide⟩

/-- The path of a file is a single line, and so is the reason if the file cannot be read. -/
structure FileView.OnLine (view : FileView) (file : Text) : Prop where
  path : '\n' ∉ file
  reason : ∀ reason, view.read file = .error reason → '\n' ∉ reason

namespace OutputFileMap

theorem lf_not_mem_message {view : FileView} {path : Text} (onLine : view.OnLine path)
    {fault : Fault} (reads : read view path = .error fault) : '\n' ∉ fault.message := by
  unfold read at reads
  split at reads
  · next unread =>
    cases reads
    unfold Fault.message
    simp only [List.mem_append, not_or]
    exact ⟨⟨⟨by decide, onLine.path⟩, by decide⟩, onLine.reason _ unread⟩
  · split at reads
    · cases reads
      unfold Fault.message
      simp only [List.mem_append, not_or]
      exact ⟨⟨⟨by decide, onLine.path⟩, by decide⟩, by decide⟩
    · unfold ofJson at reads
      split at reads
      · cases reads
      · cases reads
        unfold Fault.message
        simp only [List.mem_append, not_or]
        exact ⟨⟨⟨⟨⟨by decide, onLine.path⟩, by decide⟩, by decide⟩, by decide⟩, by decide⟩

end OutputFileMap

theorem LinkFileList.unreadable_of_read {view : FileView} {path reason : Text}
    (unread : read view path = .error reason) : view.read path = .error reason := by
  unfold read at unread
  cases held : view.read path with
  | error found =>
    rw [held] at unread
    rw [Except.error.inj unread]
  | ok text =>
    rw [held] at unread
    cases unread

namespace Step

variable {view : FileView} {step : Step}
variable (told : ∀ path ∈ step.fileRead? view.directory, view.OnLine path)

include told

theorem lf_not_mem_message_of_fault? {fault : FileFault} (faulty : step.fault? view = some fault) :
    '\n' ∉ fault.message := by
  unfold fault? at faulty
  split at faulty
  · cases faulty
    decide
  · split at faulty
    · cases faulty
    · next unread =>
      cases faulty
      exact OutputFileMap.lf_not_mem_message (told _ rfl) unread
  · dsimp only at faulty
    split at faulty
    · cases faulty
    · next reason unread =>
      cases faulty
      have unreadable := LinkFileList.unreadable_of_read unread
      unfold FileFault.message LinkFileList.unreadableMessage
      simp only [List.mem_append, not_or]
      exact ⟨⟨⟨by decide, (told _ rfl).path⟩, by decide⟩, (told _ rfl).reason _ unreadable⟩
  · cases faulty

theorem lf_not_mem_message_of_mem_contribute (onLines : step.IsOnLines) (file : Text)
    (table : RuleTable) :
    ∀ diagnostic ∈ (step.contribute view file table).diagnostics, '\n' ∉ diagnostic.message := by
  have adds := step.adds_contribute view file table
  generalize step.contribute view file table = added at adds ⊢
  cases adds with
  | objects | listed | postLink => exact nofun
  | leftOut _ faulty =>
    intro diagnostic member
    obtain rfl := List.mem_singleton.1 member
    exact lf_not_mem_message_of_fault? told faulty
  | @unlisted site output =>
    intro diagnostic member
    obtain rfl := List.mem_singleton.1 member
    unfold FileFault.diagnostic FileFault.message
    simp only [List.mem_append, not_or]
    exact ⟨⟨by decide, onLines.output output rfl⟩, by decide⟩

end Step

namespace Translation

variable {view : FileView} {options : TranslationOptions} {text : Text} {diagnostic : Diagnostic}
variable (member : diagnostic ∈ (ofText view options text).diagnostics)

include member

theorem exists_reports_of_mem_diagnostics :
    ∃ dispatch ∈ (Log.ofText text).run, diagnostic ∈ dispatch.reports view options.file {} := by
  rwa [diagnostics_ofText view options {}, List.mem_flatMap] at member

/-- A diagnostic names the log that it is about. -/
theorem file_of_mem_diagnostics : diagnostic.span.file = options.file := by
  obtain ⟨dispatch, dispatched, reported⟩ := exists_reports_of_mem_diagnostics member
  rcases Log.exists_blamed_of_mem_run view options.file {} dispatched with
    nothing | ⟨record, other, _, one, span⟩
  · rw [nothing] at reported
    cases reported
  · rw [one] at reported
    obtain rfl := List.mem_singleton.1 reported
    rw [span]

theorem lf_not_mem_format_iff_of_mem_diagnostics :
    '\n' ∉ diagnostic.format ↔ '\n' ∉ options.file ∧ '\n' ∉ diagnostic.message := by
  rw [diagnostic.lf_not_mem_format_iff, file_of_mem_diagnostics member]

/-- A message is a single line if the files that the steps of the log name can be told of on one
line each. -/
theorem lf_not_mem_message_of_mem_diagnostics
    (told : ∀ path ∈ (Log.ofText text).filesRead view.directory, view.OnLine path) :
    '\n' ∉ diagnostic.message := by
  obtain ⟨dispatch, dispatched, reported⟩ := exists_reports_of_mem_diagnostics member
  obtain ⟨among, shown⟩ := Log.mem_run_iff.1 dispatched
  unfold Dispatch.reports at reported
  cases outcome : dispatch.outcome with
  | unclaimed =>
    rw [contribute_of_unclaimed view options.file shown {} outcome] at reported
    cases reported
  | skipped kind fault =>
    rw [contribute_of_skipped view options.file shown {} outcome] at reported
    obtain rfl := List.mem_singleton.1 reported
    exact fault.lf_not_mem_message kind
  | step step =>
    rw [contribute_of_step view options.file shown {} outcome] at reported
    refine Step.lf_not_mem_message_of_mem_contribute ?_
      (Log.isOnLines_of_mem_dispatch among outcome) options.file {} diagnostic reported
    intro path read
    refine told path (List.mem_filterMap.2 ⟨dispatch, among, ?_⟩)
    rw [outcome]
    exact read

end Translation

end MakeRules
