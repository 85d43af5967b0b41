import MakeRules.Proofs.Run.Machine

/-! What a run writes, whatever comes of it.

Besides the clock a run changes files only: it writes a makefile or none, and behind that an entry
in its ledger or none. So what it leaves is known also where it answers with a fault.
-/

set_option autoImplicit false

namespace MakeRules

inductive Write where
  /-- A makefile takes the place of what its file holds. -/
  | makefile (path : Text) (makefile : Makefile)
  /-- An entry goes behind what its ledger holds. -/
  | entry (ledger : Text) (entry : Ledger.Entry)

/-- The files of a machine, and the paths that have been written, the latest first. -/
def Machine.files (machine : Machine) : Disk × List Text :=
  (machine.disk, machine.written)

def Write.apply (files : Disk × List Text) : Write → Disk × List Text
  | .makefile path made => (files.1.put path made.render, path :: files.2)
  | .entry ledger added =>
    (files.1.put ledger (files.1.text ledger ++ added.line), ledger :: files.2)

namespace Machine

variable (machine : Machine)

@[simp] theorem files_ticked : machine.ticked.files = machine.files := rfl

theorem files_entered (ledger : Text) (entry : Ledger.Entry) :
    (machine.entered (some ledger) entry).files =
      Write.apply machine.files (.entry ledger entry) := rfl

end Machine

namespace RunRequest

/-- All that a run writes: the makefile of its log for the target in effect, and what its ledger
says of it. -/
inductive Writes (request : RunRequest) (machine : Machine) : Write → Prop where
  | makefile {target : Text} {translation : Translation}
      (accepts : request.targetInEffect = .ok target)
      (translates : machine.translate request.logPath request.invocationInEffect target =
        .ok translation) :
      Writes request machine (.makefile request.outputPath translation.makefile)
  | entry {ledger : Text} {start : RunStart} {entry : Ledger.Entry}
      (shared : request.ledgerInEffect = some ledger)
      (stamped : entry.run = request.stamp start) :
      Writes request machine (.entry ledger entry)

theorem exists_files_ended (machine : Machine) (ledger : Option Text)
    (entry : Text → Ledger.Entry) (answer : Except RunFault RunReport) :
    ∃ writes : List Write,
      (ended machine ledger entry answer).2.files = writes.foldl Write.apply machine.files ∧
      ∀ write ∈ writes, ∃ path completedAt,
        ledger = some path ∧ write = .entry path (entry completedAt) := by
  unfold ended
  split
  · exact ⟨[], machine.files_ticked, nofun⟩
  · exact ⟨[], machine.files_ticked, nofun⟩
  · next completedAt _ _ =>
    cases ledger with
    | none => exact ⟨[], machine.files_ticked, nofun⟩
    | some path =>
      refine ⟨[.entry path (entry completedAt)], machine.ticked.files_entered .., ?_⟩
      intro write member
      exact ⟨path, completedAt, rfl, List.mem_singleton.1 member⟩

/-- The files behind a run are those before it with all that it writes, whatever it answers. -/
theorem exists_writes (request : RunRequest) (machine : Machine) :
    ∃ writes : List Write,
      ((run (m := StateM Machine) request).run.run machine).2.files =
        writes.foldl Write.apply machine.files ∧
      ∀ write ∈ writes, request.Writes machine write := by
  rw [run_eq]
  cases starts : request.starting machine with
  | error fault => exact ⟨[], machine.files_ticked, nofun⟩
  | ok start =>
    obtain ⟨target, _, _, accepts, rfl⟩ := starting_eq_ok_iff.1 starts
    dsimp only [started]
    cases comes : request.outcome machine target with
    | error fault =>
      -- no makefile is written, but the ledger may tell of the failure
      obtain ⟨writes, files, entered⟩ :=
        exists_files_ended machine.ticked request.ledgerInEffect _ _
      refine ⟨writes, files, fun write member => ?_⟩
      obtain ⟨path, completedAt, shared, rfl⟩ := entered write member
      exact .entry shared rfl
    | ok translation =>
      obtain ⟨writes, files, entered⟩ := exists_files_ended
        (machine.ticked.wrote request.outputPath translation.text) request.ledgerInEffect _ _
      refine ⟨.makefile request.outputPath translation.makefile :: writes, files, ?_⟩
      intro write member
      rcases List.mem_cons.1 member with rfl | later
      · exact .makefile accepts (outcome_eq_ok_iff.1 comes).1
      · obtain ⟨path, completedAt, shared, rfl⟩ := entered write later
        exact .entry shared rfl

end RunRequest

end MakeRules
