import MakeRules.Machine
import MakeRules.Run

/-! What a run on a machine can come to.

Of a machine, all that a run is given by its host and does to it is said by equations: a clock
moves on, and a file that can be written is given a text. `RunRequest.Ends` sums them up. A run
writes nothing unless its target is accepted. Then it gives its output the text of the makefile,
if the log can be read and the output be written, and in either case its ledger one more line.
-/

set_option autoImplicit false

namespace MakeRules

variable {ε α β : Type}

namespace Disk

variable (disk : Disk) (path text : Text)

@[simp] theorem read_put_self : (disk.put path text).read path = .ok text := by
  simp [Disk.read, put]

theorem text_put_of_ne {other : Text} (different : other ≠ path) :
    (disk.put path text).text other = disk.text other := by
  simp only [Disk.text, disk.put_of_ne text different]

variable {disk path} in
/-- Where a file can be written, writing it leaves all that can be written as it is. -/
theorem writeFault?_put (writable : disk.writeFault? path = none) :
    (disk.put path text).writeFault? = disk.writeFault? := by
  funext other
  by_cases same : other = path
  · subst same
    rw [writable]
    simp [writeFault?, put]
  · rw [writeFault?, disk.put_of_ne text same, writeFault?]

variable {disk path} in
theorem writeFault?_put_eq_none {other : Text} (writable : disk.writeFault? path = none)
    (stays : disk.writeFault? other = none) : (disk.put path text).writeFault? other = none := by
  rw [writeFault?_put text writable]
  exact stays

/-- The text of a log and the time when it was captured, or why the log cannot be read. -/
def capture : Except Text (Text × Text) := do
  let text ← disk.read path
  let modified ← disk.modified path
  match Timestamp.text? modified with
  | none => .error Timestamp.invalid
  | some capturedAt => return (text, capturedAt)

theorem read_of_capture {disk : Disk} {path text capturedAt : Text}
    (captures : disk.capture path = .ok (text, capturedAt)) : disk.read path = .ok text := by
  unfold capture at captures
  cases read : disk.read path with
  | error reason =>
    rw [read] at captures
    cases captures
  | ok found =>
    rw [read] at captures
    cases modified : disk.modified path with
    | error reason =>
      rw [modified] at captures
      cases captures
    | ok time =>
      rw [modified] at captures
      dsimp only [bind, Except.bind] at captures
      split at captures
      · cases captures
      · cases captures
        rfl

end Disk

namespace Machine

/-- What translations see of the machine. -/
def view (machine : Machine) : FileView where
  directory := machine.directory
  read := machine.disk.read

/-- The time that is recorded next, if a clock shows one that has a text. -/
def time? (machine : Machine) : Option Text :=
  (machine.clock.head?.join.bind Timestamp.text?).or (Timestamp.text? machine.wallClock)

theorem untold_of_time? (machine : Machine) (untold : machine.time? = none) :
    Timestamp.text? machine.wallClock = none :=
  (Option.or_eq_none_iff.1 untold).2

/-- The machine after the time has been taken. -/
def ticked (machine : Machine) : Machine :=
  { machine with
    clock := match machine.clock with
      | _ :: next :: rest => next :: rest
      | clock => clock }

/-- The name of the next run. -/
def runName (machine : Machine) : Text :=
  machine.freshId.nonBlank?.getD ("run-".toList ++ Text.signed Binary64.base36 machine.wallClock)

/-- The machine after a file has been given a text. -/
def wrote (machine : Machine) (path text : Text) : Machine :=
  { machine with disk := machine.disk.put path text, written := path :: machine.written }

/-- The machine after a ledger, if there is one, has been given an entry. -/
def entered (machine : Machine) (ledger : Option Text) (entry : Ledger.Entry) : Machine :=
  ledger.elim machine fun path => machine.wrote path (machine.disk.text path ++ entry.line)

theorem text_entered (machine : Machine) (ledger : Text) (entry : Ledger.Entry) :
    (machine.entered (some ledger) entry).disk.text ledger =
      machine.disk.text ledger ++ entry.line :=
  Disk.text_put_self ..

/-- An entry changes no file but the ledger. -/
theorem disk_entered_of_ne (machine : Machine) {ledger : Option Text} {path : Text}
    (different : ledger ≠ some path) (entry : Ledger.Entry) :
    (machine.entered ledger entry).disk path = machine.disk path := by
  cases ledger with
  | none => rfl
  | some ledger => exact Disk.put_of_ne _ _ fun same => different (congrArg some same.symm)

theorem read_entered_of_ne (machine : Machine) {ledger : Option Text} {path : Text}
    (different : ledger ≠ some path) (entry : Ledger.Entry) :
    (machine.entered ledger entry).disk.read path = machine.disk.read path := by
  simp only [Disk.read, machine.disk_entered_of_ne different]

def translate (machine : Machine) (path invocation target : Text) :
    Except TranslationFault Translation :=
  match machine.disk.capture path with
  | .error reason => .error (.logUnreadable path reason)
  | .ok (text, capturedAt) =>
    .ok (.ofText machine.view { capturedAt, invocation, aggregateTarget := target, file := path }
      text)

theorem exists_of_translate_eq_ok {machine : Machine} {path invocation target : Text}
    {translation : Translation}
    (translates : machine.translate path invocation target = .ok translation) :
    ∃ (text : Text) (options : TranslationOptions), options.aggregateTarget = target ∧
      options.file = path ∧ machine.disk.read path = .ok text ∧
        translation = .ofText machine.view options text := by
  unfold translate at translates
  split at translates
  · cases translates
  · next captures =>
    cases translates
    exact ⟨_, _, rfl, rfl, Disk.read_of_capture captures, rfl⟩

variable (machine : Machine)

theorem run_bind (first : StateM Machine α) (next : α → StateM Machine β) :
    (first >>= next).run machine = (next (first.run machine).1).run (first.run machine).2 :=
  rfl

theorem bind_of_ok {first : ExceptT ε (StateM Machine) α} {next : α → ExceptT ε (StateM Machine) β}
    {machine middle : Machine} {value : α} (ran : first.run.run machine = (.ok value, middle)) :
    (first >>= next).run.run machine = (next value).run.run middle := by
  rw [ExceptT.run_bind, run_bind, ran]

theorem bind_of_error {first : ExceptT ε (StateM Machine) α}
    {next : α → ExceptT ε (StateM Machine) β} {machine middle : Machine} {fault : ε}
    (ran : first.run.run machine = (.error fault, middle)) :
    (first >>= next).run.run machine = (.error fault, middle) := by
  rw [ExceptT.run_bind, run_bind, ran]
  rfl

theorem run_get : (get : StateM Machine Machine).run machine = (machine, machine) :=
  rfl

theorem run_lift (action : StateM Machine α) :
    (liftM action : ExceptT ε (StateM Machine) α).run.run machine =
      (.ok (action.run machine).1, (action.run machine).2) :=
  rfl

theorem run_put (path text : Text) :
    (put path text).run machine =
      match machine.disk.writeFault? path with
      | some reason => (.error reason, machine)
      | none => (.ok (), machine.wrote path text) := by
  simp only [put, run_bind, run_get]
  cases machine.disk.writeFault? path <;> rfl

theorem run_tick : tick.run machine = (machine.clock.head?.join, machine.ticked) := by
  -- only with two times or more is there one to be taken off
  obtain ⟨_, _, clock, _, _, _⟩ := machine
  obtain _ | ⟨first, _ | ⟨second, rest⟩⟩ := clock <;> rfl

theorem run_timestamp :
    (timestamp (m := StateM Machine)).run.run machine =
      (machine.time?.elim (.error .clock) .ok, machine.ticked) := by
  have clock : (liftM tick : ExceptT RunFault (StateM Machine) _).run.run machine =
      (.ok machine.clock.head?.join, machine.ticked) := by
    rw [run_lift, run_tick]
  refine (bind_of_ok clock).trans ?_
  unfold time?
  cases machine.clock.head?.join.bind Timestamp.text? with
  | some text => rfl
  | none =>
    have wall : (liftM (m := StateM Machine) Host.wallClock :
        ExceptT RunFault (StateM Machine) _).run.run machine.ticked =
          (.ok machine.wallClock, machine.ticked) := rfl
    refine (bind_of_ok wall).trans ?_
    cases Timestamp.text? machine.wallClock <;> rfl

theorem run_translateFile (path invocation target : Text) :
    (translateFile (m := StateM Machine) path invocation target).run machine =
      (machine.translate path invocation target, machine) := by
  have read : (Host.read (m := StateM Machine) path).run machine =
      (machine.disk.read path, machine) := rfl
  have modified : (Host.modified (m := StateM Machine) path).run machine =
      (machine.disk.modified path, machine) := rfl
  simp only [translateFile, translate, Disk.capture, run_bind, read]
  cases machine.disk.read path with
  | error reason => rfl
  | ok text =>
    simp only [run_bind, modified]
    cases machine.disk.modified path with
    | error reason => rfl
    | ok modified =>
      dsimp only [bind, Except.bind]
      cases Timestamp.text? modified <;> rfl

theorem run_appendTo (ledger : Option Text) (entry : Ledger.Entry) :
    (appendTo (m := StateM Machine) ledger entry).run.run machine =
      match ledger.bind machine.disk.writeFault? with
      | some reason => (.error (.ledger reason), machine)
      | none => (.ok (), machine.entered ledger entry) := by
  cases ledger with
  | none => rfl
  | some path =>
    have append : (Host.append (m := StateM Machine) path entry.line).run machine =
        (put path (machine.disk.text path ++ entry.line)).run machine := rfl
    have written : (liftM (m := StateM Machine) (Host.append (m := StateM Machine) path entry.line) :
        ExceptT RunFault (StateM Machine) _).run.run machine = _ := run_lift ..
    rw [append, run_put] at written
    refine (bind_of_ok written).trans ?_
    rw [Option.bind_some]
    cases machine.disk.writeFault? path <;> rfl

end Machine

namespace RunRequest

open Machine

variable (request : RunRequest) (machine : Machine)

/-- What is settled of a run on a machine before its log is read. -/
def starting : Except RunFault RunStart :=
  match machine.time?, request.targetInEffect with
  | none, _ => .error .clock
  | some _, .error fault => .error (.config fault)
  | some startedAt, .ok target => .ok { runId := machine.runName, startedAt, target }

variable {request machine} in
theorem starting_eq_ok_iff {start : RunStart} :
    request.starting machine = .ok start ↔ ∃ target startedAt, machine.time? = some startedAt ∧
      request.targetInEffect = .ok target ∧
        start = { runId := machine.runName, startedAt, target } := by
  unfold starting
  cases machine.time? with
  | none => simp
  | some startedAt => cases request.targetInEffect <;> simp [eq_comm]

theorem run_start :
    (request.start (m := StateM Machine)).run.run machine =
      (request.starting machine, machine.ticked) := by
  have name : (liftM (m := StateM Machine) (runName (m := StateM Machine) machine.freshId) :
      ExceptT RunFault (StateM Machine) _).run.run machine = (.ok machine.runName, machine) := by
    rw [run_lift, MakeRules.runName, Machine.runName]
    cases machine.freshId.nonBlank? <;> rfl
  have fresh : (liftM (m := StateM Machine) Host.freshId :
      ExceptT RunFault (StateM Machine) _).run.run machine = (.ok machine.freshId, machine) := rfl
  unfold start starting
  refine (bind_of_ok fresh).trans ((bind_of_ok name).trans ?_)
  have time := machine.run_timestamp
  cases told : machine.time? with
  | none =>
    rw [told] at time
    exact bind_of_error time
  | some startedAt =>
    rw [told] at time
    refine (bind_of_ok time).trans ?_
    cases request.targetInEffect <;> rfl

/-- What becomes of the log of a run: a translation, if its makefile can be written. -/
def outcome (target : Text) : Except TranslationFault Translation :=
  match machine.translate request.logPath request.invocationInEffect target with
  | .error fault => .error fault
  | .ok translation =>
    match machine.disk.writeFault? request.outputPath with
    | some reason => .error (.outputUnwritable request.outputPath reason)
    | none => .ok translation

variable {request machine} in
theorem outcome_eq_ok_iff {target : Text} {translation : Translation} :
    request.outcome machine target = .ok translation ↔
      machine.translate request.logPath request.invocationInEffect target =
        .ok translation ∧ machine.disk.writeFault? request.outputPath = none := by
  unfold outcome
  cases machine.translate .. with
  | error fault => simp
  | ok found => cases machine.disk.writeFault? request.outputPath <;> simp

/-- Of a log comes no makefile only if it cannot be read, or the output not be written. -/
theorem exists_outcome_eq_error_iff {target : Text} :
    (∃ fault, request.outcome machine target = .error fault) ↔
      (∃ reason, machine.disk.capture request.logPath = .error reason) ∨
        (machine.disk.writeFault? request.outputPath).isSome := by
  unfold outcome Machine.translate
  cases machine.disk.capture request.logPath with
  | error reason => simp
  | ok read => cases machine.disk.writeFault? request.outputPath <;> simp

theorem run_translateTo (target : Text) :
    (translateTo (m := StateM Machine) request.logPath request.outputPath
      request.invocationInEffect target).run machine =
        (request.outcome machine target,
          match request.outcome machine target with
          | .error _ => machine
          | .ok translation => machine.wrote request.outputPath translation.text) := by
  have write (text : Text) : (Host.write (m := StateM Machine) request.outputPath text).run machine =
      (put request.outputPath text).run machine := rfl
  simp only [translateTo, outcome, run_bind, run_translateFile]
  cases machine.translate .. with
  | error fault => rfl
  | ok translation =>
    simp only [run_bind, write, run_put]
    cases machine.disk.writeFault? request.outputPath <;> rfl

/-- All that a run can come to: its answer, and the machine afterwards. -/
inductive Ends : Except RunFault RunReport → Machine → Prop where
  /-- No clock shows a time. -/
  | untimed {after : Machine} (untold : Timestamp.text? machine.wallClock = none) :
      Ends (.error .clock) after
  /-- The target is refused before anything is read. -/
  | refused {fault : ConfigFault} (refuses : request.targetInEffect = .error fault) :
      Ends (.error (.config fault)) machine.ticked
  /-- The ledger cannot be written, whatever came of the log. -/
  | unentered {start : RunStart} {reason : Text} {after : Machine}
      (starts : request.starting machine = .ok start)
      (fault : request.ledgerInEffect.bind machine.disk.writeFault? = some reason) :
      Ends (.error (.ledger reason)) after
  /-- Of the log comes no makefile, and the ledger says so. -/
  | failed {start : RunStart} {fault : TranslationFault} {completedAt : Text}
      (starts : request.starting machine = .ok start)
      (fails : request.outcome machine start.target = .error fault)
      (completes : machine.ticked.time? = some completedAt)
      (writable : request.ledgerInEffect.bind machine.disk.writeFault? = none) :
      Ends (.error (.translation fault)) (machine.ticked.ticked.entered request.ledgerInEffect
        (.failed (request.stamp start) completedAt fault.failure))
  /-- The makefile is written, and the ledger says so. -/
  | done {start : RunStart} {translation : Translation} {completedAt : Text}
      (starts : request.starting machine = .ok start)
      (translates : request.outcome machine start.target = .ok translation)
      (completes : machine.ticked.time? = some completedAt)
      (writable : request.ledgerInEffect.bind machine.disk.writeFault? = none) :
      Ends (.ok { runId := start.runId, outputPath := request.outputPath, translation })
        ((machine.ticked.wrote request.outputPath translation.text).ticked.entered
          request.ledgerInEffect (.success (request.stamp start) completedAt translation))

/-- The end of a run: it is entered in its ledger, and then it answers. -/
def ended (machine : Machine) (ledger : Option Text) (entry : Text → Ledger.Entry)
    (answer : Except RunFault RunReport) : Except RunFault RunReport × Machine :=
  match machine.time?, ledger.bind machine.disk.writeFault? with
  | none, _ => (.error .clock, machine.ticked)
  | some _, some reason => (.error (.ledger reason), machine.ticked)
  | some completedAt, none => (answer, machine.ticked.entered ledger (entry completedAt))

theorem run_ended (ledger : Option Text) (entry : Text → Ledger.Entry)
    {last : ExceptT RunFault (StateM Machine) RunReport} {answer : Except RunFault RunReport}
    (answers : ∀ machine, last.run.run machine = (answer, machine)) :
    (do appendTo ledger (entry (← timestamp)); last).run.run machine =
      ended machine ledger entry answer := by
  unfold ended
  have time := machine.run_timestamp
  cases told : machine.time? with
  | none =>
    rw [told] at time
    exact bind_of_error time
  | some completedAt =>
    rw [told] at time
    refine (bind_of_ok time).trans ?_
    have append := machine.ticked.run_appendTo ledger (entry completedAt)
    have files : machine.ticked.disk = machine.disk := rfl
    rw [files] at append
    cases fault : ledger.bind machine.disk.writeFault? with
    | some reason =>
      rw [fault] at append
      exact bind_of_error append
    | none =>
      rw [fault] at append
      exact (bind_of_ok append).trans (answers _)

/-- What a run with a start does to a machine, and what it answers. -/
def started (start : RunStart) : Except RunFault RunReport × Machine :=
  match request.outcome machine start.target with
  | .error fault =>
    ended machine.ticked request.ledgerInEffect
      (fun completedAt => .failed (request.stamp start) completedAt fault.failure)
      (.error (.translation fault))
  | .ok translation =>
    ended (machine.ticked.wrote request.outputPath translation.text) request.ledgerInEffect
      (fun completedAt => .success (request.stamp start) completedAt translation)
      (.ok { runId := start.runId, outputPath := request.outputPath, translation })

theorem run_eq : (MakeRules.run (m := StateM Machine) request).run.run machine =
    match request.starting machine with
    | .error fault => (.error fault, machine.ticked)
    | .ok start => request.started machine start := by
  have begins := request.run_start machine
  unfold MakeRules.run
  cases starts : request.starting machine with
  | error fault =>
    rw [starts] at begins
    exact bind_of_error begins
  | ok start =>
    rw [starts] at begins
    have translates : (liftM (translateTo (m := StateM Machine) request.logPath request.outputPath
        request.invocationInEffect start.target) :
          ExceptT RunFault (StateM Machine) _).run.run machine.ticked = _ := run_lift ..
    rw [run_translateTo] at translates
    have same : request.outcome machine.ticked start.target = request.outcome machine start.target :=
      rfl
    rw [same] at translates
    refine (bind_of_ok begins).trans ((bind_of_ok translates).trans ?_)
    dsimp only [started]
    cases request.outcome machine start.target with
    | error fault =>
      dsimp only
      exact run_ended machine.ticked _ _ fun _ => rfl
    | ok translation =>
      dsimp only
      exact run_ended (machine.ticked.wrote ..) _ _ fun _ => rfl

variable {request machine}

theorem ends_of_run {answer : Except RunFault RunReport} {after : Machine}
    (ran : (MakeRules.run (m := StateM Machine) request).run.run machine = (answer, after)) :
    request.Ends machine answer after := by
  rw [run_eq] at ran
  cases starts : request.starting machine with
  | error fault =>
    rw [starts] at ran
    obtain ⟨rfl, rfl⟩ := Prod.mk.inj ran
    unfold starting at starts
    split at starts
    · next untold =>
      cases starts
      exact .untimed (machine.untold_of_time? untold)
    · next refuses =>
      cases starts
      exact .refused refuses
    · cases starts
  | ok start =>
    rw [starts] at ran
    dsimp only at ran
    unfold started at ran
    cases comes : request.outcome machine start.target with
    | error fault =>
      simp only [comes, ended] at ran
      split at ran
      · next untold =>
        cases ran
        exact .untimed (machine.ticked.untold_of_time? untold)
      · next refuses =>
        cases ran
        exact .unentered starts refuses
      · next completes writable =>
        cases ran
        exact .failed starts comes completes writable
    | ok translation =>
      have faults : (machine.ticked.wrote request.outputPath translation.text).disk.writeFault? =
          machine.disk.writeFault? :=
        Disk.writeFault?_put _ (outcome_eq_ok_iff.1 comes).2
      simp only [comes, ended, faults] at ran
      split at ran
      · next untold =>
        cases ran
        exact .untimed ((machine.ticked.wrote ..).untold_of_time? untold)
      · next refuses =>
        cases ran
        exact .unentered starts refuses
      · next completes writable =>
        cases ran
        exact .done starts comes completes writable

end RunRequest

/-- The action, done on a machine, succeeds with a value and leaves the machine as another. -/
def Succeeds (action : ExceptT ε (StateM Machine) α) (machine : Machine) (value : α)
    (after : Machine) : Prop :=
  action.run.run machine = (.ok value, after)

end MakeRules
