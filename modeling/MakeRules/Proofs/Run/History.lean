import Mathlib.Data.List.Forall2
import Mathlib.Data.List.ReduceOption
import MakeRules.Proofs.Ledger
import MakeRules.Proofs.Run.Machine

/-! The ledger that runs share.

Whatever else changes between runs, a ledger that only they write holds one line for each of
them whose target was accepted, in the order of the runs, and each line is read back.
-/

set_option autoImplicit false

namespace MakeRules

/-- A run that was made: what was asked for, of which machine, and what came of it. -/
structure Call where
  request : RunRequest
  before : Machine
  answer : Except RunFault RunReport
  after : Machine
  ran : (run (m := StateM Machine) request).run.run before = (answer, after)

/-- The call that a request makes of a machine. -/
def RunRequest.call (request : RunRequest) (machine : Machine) : Call where
  request := request
  before := machine
  answer := ((run (m := StateM Machine) request).run.run machine).1
  after := ((run (m := StateM Machine) request).run.run machine).2
  ran := rfl

/-- Calls one after another, between which all may change but a ledger: what its file is before
the first of them, and after the last. -/
inductive History (ledger : Text) : Option File → List Call → Option File → Prop where
  | done (file : Option File) : History ledger file [] file
  | next {call : Call} {rest : List Call} {first last : Option File} :
      call.before.disk ledger = first → History ledger (call.after.disk ledger) rest last →
        History ledger first (call :: rest) last

namespace Call

/-- What a call enters in its ledger, if anything, for what it answers and writes. -/
inductive Enters (call : Call) (ledger : Text) : Option Ledger.Entry → Prop where
  /-- The target is refused, and nothing written. -/
  | refused {fault : ConfigFault} :
      call.request.targetInEffect = .error fault →
      call.answer = .error (.config fault) →
      call.after.written = call.before.written →
        Enters call ledger none
  /-- The makefile is not written, and the entry tells the fault that is answered. -/
  | failed {fault : TranslationFault} {target startedAt completedAt : Text} {start : RunStart}
      {entry : Ledger.Entry} :
      call.request.targetInEffect = .ok target →
      call.before.time? = some startedAt →
      call.before.ticked.time? = some completedAt →
      start = { runId := call.before.runName, startedAt, target } →
      call.answer = .error (.translation fault) →
      call.after.written = ledger :: call.before.written →
      entry = .failed (call.request.stamp start) completedAt fault.failure →
      Ledger.TellsFailure entry.members call.request start completedAt
        "TranslationError".toList fault.message →
        Enters call ledger (some entry)
  /-- The makefile is written, and the entry counts what is answered. -/
  | succeeded {report : RunReport} {target startedAt completedAt : Text} {start : RunStart}
      {entry : Ledger.Entry} :
      call.request.targetInEffect = .ok target →
      call.before.time? = some startedAt →
      call.before.ticked.time? = some completedAt →
      start = { runId := call.before.runName, startedAt, target } →
      call.answer = .ok report →
      call.after.written = ledger :: call.request.outputPath :: call.before.written →
      call.after.disk.read call.request.outputPath = .ok report.translation.text →
      entry = .success (call.request.stamp start) completedAt report.translation →
      Ledger.TellsSuccess entry.members call.request start completedAt report.translation →
        Enters call ledger (some entry)

/-- What a call enters is one line behind what its ledger holds already. -/
def Logs (ledger : Text) (call : Call) (item : Option Ledger.Entry) : Prop :=
  call.Enters ledger item ∧ call.after.disk.text ledger =
    call.before.disk.text ledger ++ item.elim [] (·.line)

variable {call : Call} {ledger : Text}

theorem Enters.isStamped {entry : Ledger.Entry} (enters : call.Enters ledger (some entry)) :
    entry.IsStamped := by
  cases enters with
  | failed _ _ _ _ _ _ same _ | succeeded _ _ _ _ _ _ _ same _ =>
    rw [same]
    exact ⟨_, _, rfl⟩

/-- All that a call does to a ledger that can be written. -/
theorem exists_logs (shared : call.request.ledgerInEffect = some ledger)
    (apart : call.request.outputPath ≠ ledger)
    (timed : (Timestamp.text? call.before.wallClock).isSome)
    (writable : call.before.disk.writeFault? ledger = none) :
    call.after.disk.writeFault? ledger = none ∧ ∃ item, Logs ledger call item := by
  have ends := RunRequest.ends_of_run call.ran
  -- the answer and the machine get names of their own, for the ends to be told apart
  obtain ⟨answer, answers⟩ : ∃ answer, call.answer = answer := ⟨_, rfl⟩
  obtain ⟨after, comes⟩ : ∃ after, call.after = after := ⟨_, rfl⟩
  rw [answers, comes] at ends
  cases ends with
  | untimed untold =>
    rw [untold] at timed
    cases timed
  | refused refuses =>
    refine ⟨?_, none, .refused refuses answers (by rw [comes]; rfl), ?_⟩
    · rw [comes]
      exact writable
    · rw [comes, Option.elim_none, List.append_nil]
      rfl
  | unentered starts fault =>
    rw [shared, Option.bind_some, writable] at fault
    cases fault
  | failed starts fails completes _ =>
    obtain ⟨target, startedAt, begins, accepts, rfl⟩ := RunRequest.starting_eq_ok_iff.1 starts
    rw [shared] at comes
    refine ⟨?_, _, .failed accepts begins completes rfl answers (by rw [comes]; rfl) rfl
      (Ledger.Entry.tellsFailure ..), ?_⟩
    · rw [comes]
      exact Disk.writeFault?_put_eq_none _ writable writable
    · rw [comes]
      exact Machine.text_entered ..
  | @done start translation completedAt starts translates completes _ =>
    obtain ⟨target, startedAt, begins, accepts, rfl⟩ := RunRequest.starting_eq_ok_iff.1 starts
    rw [shared] at comes
    have writes := (RunRequest.outcome_eq_ok_iff.1 translates).2
    have stays := Disk.writeFault?_put_eq_none translation.text writes writable
    refine ⟨?_, _, .succeeded accepts begins completes rfl answers (by rw [comes]; rfl) ?_ rfl
      (Ledger.Entry.tellsSuccess ..), ?_⟩
    · rw [comes]
      exact Disk.writeFault?_put_eq_none _ stays stays
    · rw [comes]
      refine (Machine.read_entered_of_ne _ ?_ _).trans (Disk.read_put_self ..)
      exact fun same => apart (Option.some.inj same).symm
    · rw [comes]
      refine (Machine.text_entered ..).trans ?_
      exact congrArg (· ++ _) (Disk.text_put_of_ne _ _ _ (Ne.symm apart))

end Call

namespace History

variable {ledger : Text} {first last : Option File} {calls : List Call}

theorem exists_logged (history : History ledger first calls last)
    (shared : ∀ call ∈ calls, call.request.ledgerInEffect = some ledger)
    (apart : ∀ call ∈ calls, call.request.outputPath ≠ ledger)
    (timed : ∀ call ∈ calls, (Timestamp.text? call.before.wallClock).isSome)
    (writable : first.bind (·.writeFault) = none) :
    ∃ logged, List.Forall₂ (Call.Logs ledger) calls logged ∧
      (last.map (·.text)).getD [] =
        (first.map (·.text)).getD [] ++ logged.reduceOption.flatMap (·.line) := by
  induction history with
  | done file => exact ⟨[], .nil, by simp⟩
  | @next call rest first last found _ ih =>
    subst found
    rw [List.forall_mem_cons] at shared apart timed
    obtain ⟨still, item, logs⟩ := Call.exists_logs shared.1 apart.1 timed.1 writable
    obtain ⟨logged, each, text⟩ := ih shared.2 apart.2 timed.2 still
    refine ⟨item :: logged, .cons logs each, ?_⟩
    rw [text]
    change call.after.disk.text ledger ++ _ = call.before.disk.text ledger ++ _
    rw [logs.2, List.append_assoc]
    cases item with
    | none => rw [Option.elim_none, List.nil_append, List.reduceOption_cons_of_none]
    | some entry => rw [Option.elim_some, List.reduceOption_cons_of_some, List.flatMap_cons]

theorem isStamped_of_mem {logged : List (Option Ledger.Entry)}
    (each : List.Forall₂ (Call.Logs ledger) calls logged) :
    ∀ entry ∈ logged.reduceOption, entry.IsStamped := by
  intro entry found
  rw [List.reduceOption_mem_iff] at found
  induction each with
  | nil => cases found
  | cons logs _ ih =>
    obtain rfl | found := List.mem_cons.1 found
    · exact logs.1.isStamped
    · exact ih found

/-- Calls that share a ledger, absent before the first of them, enter in it one line for each
whose target is accepted, and nothing else. From each line its entry is read back, which tells a
success with the counts of the call's result if its makefile was written, and else a failure with
the fault that was answered. -/
theorem ledger_lines (history : History ledger none calls last)
    (shared : ∀ call ∈ calls, call.request.ledgerInEffect = some ledger)
    (apart : ∀ call ∈ calls, call.request.outputPath ≠ ledger)
    (timed : ∀ call ∈ calls, (Timestamp.text? call.before.wallClock).isSome) :
    ∃ logged, List.Forall₂ (Call.Logs ledger) calls logged ∧
      Text.splitOn '\n' ((last.map (·.text)).getD []) =
        logged.reduceOption.map (·.toJson.print) ++ [[]] ∧
      ∀ entry ∈ logged.reduceOption,
        Json.parse? entry.toJson.print = some (.obj entry.members) := by
  obtain ⟨logged, each, text⟩ := history.exists_logged shared apart timed rfl
  have stamped := isStamped_of_mem each
  refine ⟨logged, each, ?_, fun entry found =>
    Ledger.Entry.parse?_print_toJson (stamped entry found)⟩
  rw [text, Option.map_none, Option.getD_none, List.nil_append,
    Ledger.splitOn_flatMap_line stamped]

/-- A call is refused, one fails, and one succeeds, all with line breaks in their texts. -/
theorem ledger_lines_of_line_breaks :
    let disk : Disk := fun path => if path = "log".toList then some {} else none
    let machine : Machine := { directory := "/".toList, disk, freshId := "a\n\"\\".toList }
    let request (logPath target : Text) : RunRequest := {
      logPath
      outputPath := "o\nut".toList
      invocation := some "\r\n\x01é𝄞".toList
      aggregateTarget := some target
      ledgerPath := some "ledger".toList }
    let refused := (request "log".toList "a b".toList).call machine
    let failed := (request "no\nlog".toList []).call refused.after
    let succeeded := (request "log".toList []).call failed.after
    ∃ first second failure success,
      Text.splitOn '\n' (succeeded.after.disk.text "ledger".toList) = [first, second, []] ∧
      Json.parse? first = some (.obj failure) ∧
      Json.member? "outcome".toList failure = some (.obj [
        ("status".toList, .str "failure".toList),
        ("error".toList, .obj [
          ("name".toList, .str "TranslationError".toList),
          ("message".toList, .str ("Cannot read build log no\nlog: ".toList ++
            "ENOENT: no such file or directory, open 'no\nlog'".toList))])]) ∧
      Json.parse? second = some (.obj success) ∧
      Json.member? "outcome".toList success =
        some (.obj [("status".toList, .str "success".toList)]) := by
  intro disk machine request refused failed succeeded
  have history : History "ledger".toList none [refused, failed, succeeded]
      (succeeded.after.disk "ledger".toList) := .next rfl (.next rfl (.next rfl (.done _)))
  obtain ⟨logged, each, lines, read⟩ := history.ledger_lines (by decide +kernel)
    (by decide +kernel) (by decide +kernel)
  change Text.splitOn '\n' (succeeded.after.disk.text "ledger".toList) = _ at lines
  -- what each call enters is settled by its target and by what it answers
  have refuses : refused.request.targetInEffect.toOption = none := by decide +kernel
  have accepts : failed.request.targetInEffect.toOption.isSome = true := by decide +kernel
  have fails : failed.answer.map (fun _ => ()) = .error (.translation (.logUnreadable
      "no\nlog".toList "ENOENT: no such file or directory, open 'no\nlog'".toList)) := by
    decide +kernel
  have succeeds : succeeded.answer.toOption.isSome = true := by decide +kernel
  obtain _ | ⟨⟨first, -⟩, _ | ⟨⟨second, -⟩, _ | ⟨⟨third, -⟩, _ | _⟩⟩⟩ := each
  cases first with
  | failed accepted | succeeded accepted =>
    rw [accepted] at refuses
    cases refuses
  | refused =>
    cases second with
    | refused refused =>
      rw [refused] at accepts
      cases accepts
    | succeeded _ _ _ _ answers =>
      rw [answers] at fails
      cases fails
    | failed _ _ _ _ answers _ _ tells =>
      rw [answers] at fails
      obtain rfl := RunFault.translation.inj (Except.error.inj fails)
      cases third with
      | refused _ answers | failed _ _ _ _ answers =>
        rw [answers] at succeeds
        cases succeeds
      | succeeded _ _ _ _ _ _ _ _ tells' =>
        exact ⟨_, _, _, _, lines, read _ (by simp), tells.outcome, read _ (by simp),
          tells'.outcome⟩

end History

end MakeRules
