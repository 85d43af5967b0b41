import MakeRules.Proofs.CommandLine.Command

/-! What the command leaves behind.

What it prints and which files it changes goes with its exit code: a refusal changes nothing, a
failure is entered in the ledger only, and a success changes the output and the ledger.
-/

set_option autoImplicit false

namespace MakeRules

/-- A ledger goes on with an entry on a line of its own. -/
structure Ledger.Entry.Extends (entry : Ledger.Entry) (before after : Disk) (ledger : Text) :
    Prop where
  text : after.text ledger = before.text ledger ++ entry.toJson.print ++ ['\n']
  oneLine : '\n' ∉ entry.toJson.print
  read : Json.parse? entry.toJson.print = some (.obj entry.members)

theorem Ledger.Entry.IsStamped.extends {entry : Ledger.Entry} (stamped : entry.IsStamped)
    {before after : Disk} {ledger : Text}
    (text : after.text ledger = before.text ledger ++ entry.line) :
    entry.Extends before after ledger where
  text := by rw [text, line, List.append_assoc]
  oneLine := lf_not_mem_print_toJson stamped
  read := parse?_print_toJson stamped

/-- Why a file cannot be read or written. -/
def TranslationFault.reason : TranslationFault → Text
  | .logUnreadable _ reason => reason
  | .outputUnwritable _ reason => reason

namespace CommandLine

open Json

theorem regular_summary (report : RunReport) : Regular (Report.summary report) := by
  have products : Regular (.arr (report.translation.linkedProducts.map fun target =>
      .str (Escape.ofMakeTarget target))) := regularItems_iff.2 (by simp)
  refine regular_object ?_ ?_
  · simp only [List.map]
    decide
  · simp only [List.forall_mem_cons]
    exact ⟨trivial, regular_str _, regular_str _, regular_nat _, products, regular_nat _, nofun⟩

variable {words : List Text} {machine after : Machine}

/-- With files of their own, a makefile that is written and its entry do not meet. -/
theorem leaves_of_written {request : RunRequest}
    (apart : request.ledgerInEffect ≠ some request.outputPath)
    (machine : Machine) (start : RunStart) (completedAt : Text) (translation : Translation) :
    let entry : Ledger.Entry := .success (request.stamp start) completedAt translation
    let after := (machine.ticked.wrote request.outputPath translation.text).ticked.entered
      request.ledgerInEffect entry
    after.disk.read request.outputPath = .ok translation.text ∧
      ∀ ledger, request.ledgerInEffect = some ledger →
        entry.Extends machine.disk after.disk ledger := by
  intro entry after
  let written := (machine.ticked.wrote request.outputPath translation.text).ticked
  have same : written.disk = machine.disk.put request.outputPath translation.text := rfl
  refine ⟨?_, fun ledger shared => Ledger.Entry.IsStamped.extends ⟨request, _, rfl⟩ ?_⟩
  · have output : after.disk.read request.outputPath = _ := written.read_entered_of_ne apart entry
    rw [output, same, Disk.read_put_self]
  · have entered : after = written.entered (some ledger) entry := by rw [← shared]
    rw [entered, written.text_entered, same]
    rw [shared] at apart
    rw [Disk.text_put_of_ne _ _ _ fun same => apart (congrArg some same)]

end CommandLine

end MakeRules
