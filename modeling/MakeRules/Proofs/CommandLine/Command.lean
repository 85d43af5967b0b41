import MakeRules.CommandLine.Command
import MakeRules.Proofs.Ledger
import MakeRules.Proofs.Run.Machine

/-! What the command can come to on a machine.

A command that is not refused for its words or its configuration asks for a run. It returns
unless a ledger stands in the way of that run, and its exit code says what the run has left
behind.
-/

set_option autoImplicit false

namespace MakeRules.CommandLine

open Machine

/-- The configuration that the command finds on a machine. -/
def configOn (machine : Machine) : Option Text → Except ConfigFault Config
  | none => .ok {}
  | some path =>
    let path := Path.resolve [machine.directory, path]
    Config.ofFile path (machine.disk.read path)

/-- The words ask for help, whatever else they ask for. -/
def AsksHelp (words : List Text) : Prop :=
  ∃ arguments, Arguments.ofWords words = .ok arguments ∧ arguments.help = true

/-- The words and the configuration ask for a run. -/
inductive Asks (words : List Text) (machine : Machine) : RunRequest → Prop where
  | intro {arguments : Arguments} {logPath outputPath : Text} {config : Config} :
      Arguments.ofWords words = .ok arguments →
      arguments.help = false →
      arguments.value? .log = some logPath →
      arguments.value? .out = some outputPath →
      configOn machine (arguments.value? .config) = .ok config →
        Asks words machine (request arguments logPath outputPath config)

/-- A report of what was wrong, and of nothing else. -/
structure Report.IsRefusal (report : Report) : Prop where
  exitCode : report.exitCode = 2
  output : report.output = []
  errors : report.errors ≠ []

theorem Report.isRefusal_misuse (message : Text) : (misuse message).IsRefusal :=
  ⟨rfl, rfl, List.cons_ne_nil _ _⟩

theorem Report.isRefusal_failure (message : Text) : (failure 2 message).IsRefusal :=
  ⟨rfl, rfl, List.cons_ne_nil _ _⟩

/-- What the command makes of the answer of a run. -/
def answered : Except RunFault RunReport → Except RunFault Report
  | .ok report => .ok (.success report)
  | .error (.translation fault) => .ok (.failure 1 fault.message)
  | .error (.config fault) => .ok (.failure 2 fault.message)
  | .error fault => .error fault

/-- All that the command can come to: its answer, and the machine afterwards. -/
inductive Ends (words : List Text) (machine : Machine) :
    Except RunFault Report → Machine → Prop where
  | helps (help : AsksHelp words) :
      Ends words machine (.ok { exitCode := 0, output := [usage] }) machine
  | refuses {report : Report} (refusal : report.IsRefusal)
      (unasked : ∀ request, ¬Asks words machine request) : Ends words machine (.ok report) machine
  | runs {request : RunRequest} {answer : Except RunFault RunReport} {after : Machine}
      (asks : Asks words machine request) (ends : request.Ends machine answer after) :
      Ends words machine (answered answer) after

variable {words : List Text} {machine after : Machine}

theorem run_loadConfig (path : Option Text) :
    (loadConfig (m := StateM Machine) path).run machine = (configOn machine path, machine) := by
  cases path <;> rfl

theorem run_perform {request : RunRequest} {answer : Except RunFault RunReport}
    (ran : (run (m := StateM Machine) request).run.run machine = (answer, after)) :
    (perform (m := StateM Machine) request).run.run machine = (answered answer, after) := by
  unfold perform
  generalize run (m := StateM Machine) request = action at ran ⊢
  -- a fault of the run is caught with the machine that it leaves
  dsimp only [tryCatch, tryCatchThe, MonadExcept.tryCatch, MonadExceptOf.tryCatch, bind,
    ExceptT.tryCatch, ExceptT.bind, ExceptT.bindCont, ExceptT.mk, ExceptT.run, StateT.run,
    StateT.bind] at ran ⊢
  rw [ran]
  cases answer with
  | ok report => rfl
  | error fault => cases fault <;> rfl

variable (words machine) in
/-- The ways that the command can go: help, a refusal, or the run that is asked for. -/
inductive Goes : Except RunFault Report × Machine → Prop where
  | helps (help : AsksHelp words) : Goes (.ok { exitCode := 0, output := [usage] }, machine)
  | refuses {report : Report} (refusal : report.IsRefusal)
      (unasked : ∀ request, ¬Asks words machine request) : Goes (.ok report, machine)
  | runs {request : RunRequest} (asks : Asks words machine request) :
      Goes (answered ((run (m := StateM Machine) request).run.run machine).1,
        ((run (m := StateM Machine) request).run.run machine).2)

theorem goes_command (words : List Text) (machine : Machine) :
    Goes words machine ((command (m := StateM Machine) words).run.run machine) := by
  unfold command
  cases parses : Arguments.ofWords words with
  | error fault =>
    refine .refuses (Report.isRefusal_misuse _) ?_
    rintro _ ⟨parsed, -, -, -, -⟩
    cases parses.symm.trans parsed
  | ok arguments =>
    dsimp only
    split
    · next help => exact .helps ⟨arguments, parses, help⟩
    · next noHelp =>
      split
      · next logPath outputPath log out =>
        have loading : (liftM (loadConfig (m := StateM Machine) (arguments.value? .config)) :
            ExceptT RunFault (StateM Machine) _).run.run machine = _ := run_lift ..
        rw [run_loadConfig] at loading
        refine (bind_of_ok loading).symm ▸ ?_
        cases loads : configOn machine (arguments.value? .config) with
        | error fault =>
          refine .refuses (Report.isRefusal_failure _) ?_
          rintro _ ⟨parsed, -, -, -, loaded⟩
          cases parses.symm.trans parsed
          cases loads.symm.trans loaded
        | ok config =>
          have asks : Asks words machine (request arguments logPath outputPath config) :=
            .intro parses (Bool.not_eq_true _ ▸ noHelp) log out loads
          exact run_perform rfl ▸ .runs asks
      · next missing =>
        refine .refuses (Report.isRefusal_misuse _) ?_
        rintro _ ⟨parsed, -, log, out, -⟩
        cases parses.symm.trans parsed
        exact missing _ _ log out

theorem ends_of_command {answer : Except RunFault Report}
    (ran : (command (m := StateM Machine) words).run.run machine = (answer, after)) :
    Ends words machine answer after := by
  have goes := goes_command words machine
  rw [ran] at goes
  cases goes with
  | helps help => exact .helps help
  | refuses refusal unasked => exact .refuses refusal unasked
  | runs asks => exact .runs asks (RunRequest.ends_of_run rfl)

theorem Asks.unique {first second : RunRequest} (asks : Asks words machine first)
    (other : Asks words machine second) : first = second := by
  obtain ⟨parses, -, log, out, loads⟩ := asks
  obtain ⟨parsed, -, logged, outs, loaded⟩ := other
  cases parses.symm.trans parsed
  cases log.symm.trans logged
  cases out.symm.trans outs
  cases loads.symm.trans loaded
  rfl

theorem Asks.not_asksHelp {request : RunRequest} (asks : Asks words machine request) :
    ¬AsksHelp words := by
  rintro ⟨arguments, parsed, help⟩
  obtain ⟨parses, noHelp, -, -, -⟩ := asks
  cases parses.symm.trans parsed
  cases noHelp.symm.trans help

/-- The run that is asked for is the only end of the command. -/
theorem Asks.ends {request : RunRequest} {answer : Except RunFault Report}
    (asks : Asks words machine request) (ends : Ends words machine answer after) :
    ∃ ran, request.Ends machine ran after ∧ answer = answered ran := by
  cases ends with
  | helps help => exact absurd help asks.not_asksHelp
  | refuses refusal unasked => exact absurd asks (unasked _)
  | runs other ends =>
    cases asks.unique other
    exact ⟨_, ends, rfl⟩

/-- The command returns unless it is to enter a run in a ledger that cannot be written. -/
theorem exists_succeeds_iff (timed : (Timestamp.text? machine.wallClock).isSome) :
    (∃ report after, Succeeds (command words) machine report after) ↔
      ∀ request target, Asks words machine request → request.targetInEffect = .ok target →
        request.ledgerInEffect.bind machine.disk.writeFault? = none := by
  constructor
  · rintro ⟨report, after, succeeds⟩ request target asks accepts
    obtain ⟨ran, ends, answers⟩ := asks.ends (ends_of_command succeeds)
    cases ends with
    | untimed | unentered => cases answers
    | refused refuses => cases accepts.symm.trans refuses
    | failed _ _ _ writable => exact writable
    | done _ _ _ writable => exact writable
  · intro writable
    rcases ran : (command (m := StateM Machine) words).run.run machine with ⟨answer, after⟩
    -- of all ends, those without a time and with a ledger in the way give no report
    suffices returns : ∃ report, answer = .ok report by
      obtain ⟨report, rfl⟩ := returns
      exact ⟨report, after, ran⟩
    cases ends_of_command ran with
    | helps | refuses => exact ⟨_, rfl⟩
    | @runs request _ _ asks ends =>
      cases ends with
      | untimed untold =>
        rw [untold] at timed
        cases timed
      | unentered starts fault =>
        obtain ⟨target, _, _, accepts, _⟩ := RunRequest.starting_eq_ok_iff.1 starts
        cases (writable request target asks accepts).symm.trans fault
      | refused | failed | done => exact ⟨_, rfl⟩

theorem exitCode_of_ends {report : Report} (ends : Ends words machine (.ok report) after) :
    report.exitCode = 0 ∨ report.exitCode = 1 ∨ report.exitCode = 2 := by
  generalize answers : (Except.ok report : Except RunFault Report) = answer at ends
  cases ends with
  | helps =>
    cases answers
    exact .inl rfl
  | refuses refusal =>
    cases answers
    exact .inr (.inr refusal.exitCode)
  | runs _ ends =>
    cases ends with
    | untimed | unentered => cases answers
    | refused =>
      cases answers
      exact .inr (.inr rfl)
    | failed =>
      cases answers
      exact .inr (.inl rfl)
    | done =>
      cases answers
      exact .inl rfl

/-- If its target is accepted, a run is reported to have failed for its log or output only. -/
theorem Asks.exitCode_eq_one_iff {request : RunRequest} {target : Text} {report : Report}
    (asks : Asks words machine request) (accepts : request.targetInEffect = .ok target)
    (ends : Ends words machine (.ok report) after) :
    report.exitCode = 1 ↔
      (∃ reason, machine.disk.capture request.logPath = .error reason) ∨
        (machine.disk.writeFault? request.outputPath).isSome := by
  obtain ⟨ran, ends, answers⟩ := asks.ends ends
  cases ends with
  | untimed | unentered => cases answers
  | refused refuses => cases accepts.symm.trans refuses
  | failed _ fails =>
    cases answers
    exact iff_of_true rfl ((request.exists_outcome_eq_error_iff machine).1 ⟨_, fails⟩)
  | done _ translates =>
    cases answers
    refine iff_of_false Nat.zero_ne_one fun fault => ?_
    obtain ⟨fault, fails⟩ := (request.exists_outcome_eq_error_iff machine).2 fault
    cases translates.symm.trans fails

/-- The command returns unless it is to enter a run in a ledger that cannot be written. If it
does return, its exit code says whether the log could be read and the output be written. -/
theorem command_returns (timed : (Timestamp.text? machine.wallClock).isSome) :
    ((∃ report after, Succeeds (command words) machine report after) ↔
      ∀ request target, Asks words machine request → request.targetInEffect = .ok target →
        request.ledgerInEffect.bind machine.disk.writeFault? = none) ∧
    ∀ report after, Succeeds (command words) machine report after →
      (report.exitCode = 0 ∨ report.exitCode = 1 ∨ report.exitCode = 2) ∧
      ∀ request target, Asks words machine request → request.targetInEffect = .ok target →
        (report.exitCode = 1 ↔
          (∃ reason, machine.disk.capture request.logPath = .error reason) ∨
            (machine.disk.writeFault? request.outputPath).isSome) := by
  refine ⟨exists_succeeds_iff timed, fun report after succeeds => ?_⟩
  have ends := ends_of_command succeeds
  exact ⟨exitCode_of_ends ends, fun request target asks accepts =>
    asks.exitCode_eq_one_iff accepts ends⟩

/-- Where the ledger of a run cannot be written, the command does not return. -/
theorem command_faults_for_unwritable_ledger :
    let disk : Disk := fun path =>
      if path = "ledger".toList then some { writeFault := some "EACCES".toList } else none
    let machine : Machine := { directory := "/".toList, disk }
    let words := ["--log", "log", "--out", "out", "--ledger", "ledger"].map String.toList
    (¬∃ report after, Succeeds (command words) machine report after) ∧
      ∃ request, Asks words machine request ∧
        (request.ledgerInEffect.bind machine.disk.writeFault?).isSome := by
  intro disk machine words
  have timed : (Timestamp.text? machine.wallClock).isSome := by decide +kernel
  have stops : ((command (m := StateM Machine) words).run.run machine).1.isOk = false := by
    decide +kernel
  have silent : ¬∃ report after, Succeeds (command words) machine report after := by
    rintro ⟨report, after, succeeds⟩
    rw [Succeeds] at succeeds
    rw [succeeds] at stops
    cases stops
  refine ⟨silent, ?_⟩
  by_contra writable
  refine silent ((command_returns timed).1.2 fun request target asks _ => ?_)
  by_contra fault
  exact writable ⟨request, asks, Option.ne_none_iff_isSome.1 fault⟩

end MakeRules.CommandLine
