import MakeRules.Config
import MakeRules.Host
import MakeRules.Ledger
import MakeRules.Timestamp

/-! A run: a log file is translated, the makefile written, and the run entered in the ledger.

What is asked for explicitly goes before the configuration. An explicit target
name is checked before anything is read. A run that cannot read its log or
write its makefile is entered as a failure before it fails.
-/

set_option autoImplicit false

namespace MakeRules

/-- Why a translation came to nothing. -/
inductive TranslationFault where
  | logUnreadable (path reason : Text)
  | outputUnwritable (path reason : Text)
  deriving DecidableEq, Repr

namespace TranslationFault

def code : TranslationFault → Text
  | .logUnreadable .. => "LOG_UNREADABLE".toList
  | .outputUnwritable .. => "OUTPUT_UNWRITABLE".toList

def path : TranslationFault → Text
  | .logUnreadable path _ => path
  | .outputUnwritable path _ => path

def message : TranslationFault → Text
  | .logUnreadable path reason =>
    "Cannot read build log ".toList ++ path ++ ": ".toList ++ reason
  | .outputUnwritable path reason =>
    "Cannot write rule set ".toList ++ path ++ ": ".toList ++ reason

def name : Text := "TranslationError".toList

def failure (fault : TranslationFault) : Ledger.Failure :=
  ⟨name, fault.message⟩

end TranslationFault

inductive RunFault where
  | config (fault : ConfigFault)
  | translation (fault : TranslationFault)
  /-- The ledger cannot be written. -/
  | ledger (reason : Text)
  /-- No clock shows a time that has a text. -/
  | clock
  deriving DecidableEq, Repr

def RunFault.message : RunFault → Text
  | .config fault => fault.message
  | .translation fault => fault.message
  | .ledger reason => reason
  | .clock => Timestamp.invalid

structure RunRequest where
  logPath : Text
  outputPath : Text
  invocation : Option Text := none
  aggregateTarget : Option Text := none
  ledgerPath : Option Text := none
  config : Config := {}

structure RunReport where
  runId : Text
  outputPath : Text
  translation : Translation

namespace RunRequest

/-- The invocation of a run: the explicit one, else that of the configuration. -/
def invocationInEffect (request : RunRequest) : Text :=
  (request.invocation.or request.config.invocation).getD []

/-- The target of a run: the explicit one, which is checked, else that of the configuration. -/
def targetInEffect (request : RunRequest) : Except ConfigFault Text :=
  match request.aggregateTarget.bind Text.nonBlank? with
  | some name => Config.requireTargetName name
  -- the name in a configuration has passed the schema already
  | none =>
    .ok ((request.config.aggregateTarget.bind Text.nonBlank?).getD defaultAggregateTarget)

/-- The ledger of a run, if it has one. -/
def ledgerInEffect (request : RunRequest) : Option Text :=
  (request.ledgerPath.bind Text.nonBlank?).or
    (request.config.ledgerPath.bind Text.nonBlank?)

end RunRequest

variable {m : Type → Type} [Monad m] [Host m]

/-- Translate the log at a path, as captured when the file was last changed. -/
def translateFile (path invocation aggregateTarget : Text) :
    m (Except TranslationFault Translation) := do
  match ← Host.read (m := m) path with
  | .error reason => return .error (.logUnreadable path reason)
  | .ok text =>
    match ← Host.modified (m := m) path with
    | .error reason => return .error (.logUnreadable path reason)
    | .ok modified =>
      match Timestamp.text? modified with
      | none => return .error (.logUnreadable path Timestamp.invalid)
      | some capturedAt =>
        let log := Log.ofText text
        let view ← Host.view (log.filesRead (← Host.directory))
        return .ok (.ofLog view { capturedAt, invocation, aggregateTarget, file := path } log)

/-- Translate a log and write the makefile. -/
def translateTo (logPath outputPath invocation aggregateTarget : Text) :
    m (Except TranslationFault Translation) := do
  match ← translateFile (m := m) logPath invocation aggregateTarget with
  | .error fault => return .error fault
  | .ok translation =>
    match ← Host.write (m := m) outputPath translation.text with
    | .error reason => return .error (.outputUnwritable outputPath reason)
    | .ok () => return .ok translation

/-- The time on the clock, or that of the day where the clock shows none. -/
def timestamp : ExceptT RunFault m Text := do
  match (← Host.clock (m := m)).bind Timestamp.text? with
  | some text => return text
  | none =>
    match Timestamp.text? (← Host.wallClock (m := m)) with
    | some text => return text
    | none => throw .clock

/-- Append an entry to a ledger, if there is one. -/
def appendTo (ledger : Option Text) (entry : Ledger.Entry) : ExceptT RunFault m Unit := do
  if let some path := ledger then
    if let .error reason ← Host.append (m := m) path entry.line then throw (.ledger reason)

/-- The name of a run; the time of the day stands in for a blank one. -/
def runName (given : Text) : m Text := do
  match given.nonBlank? with
  | some name => return name
  | none => return "run-".toList ++ Text.signed Binary64.base36 (← Host.wallClock)

/-- What is settled of a run before its log is read. -/
structure RunStart where
  runId : Text
  startedAt : Text
  target : Text
  deriving DecidableEq, Repr

namespace RunRequest

def start (request : RunRequest) : ExceptT RunFault m RunStart := do
  let runId ← runName (m := m) (← Host.freshId (m := m))
  let startedAt ← timestamp
  match request.targetInEffect with
  | .ok target => return { runId, startedAt, target }
  | .error fault => throw (.config fault)

/-- What the ledger says of a run, whatever comes of it. -/
def stamp (request : RunRequest) (start : RunStart) : List (Text × Json) :=
  [("run_id".toList, .str start.runId),
    ("started_at".toList, .str start.startedAt),
    ("log_path".toList, .str request.logPath),
    ("output_path".toList, .str request.outputPath),
    ("invocation".toList, .str request.invocationInEffect)]

end RunRequest

def run (request : RunRequest) : ExceptT RunFault m RunReport := do
  let start ← request.start (m := m)
  let ledger := request.ledgerInEffect
  let stamp := request.stamp start
  match ← translateTo (m := m) request.logPath request.outputPath request.invocationInEffect
      start.target with
  | .error fault =>
    appendTo ledger (.failed stamp (← timestamp) fault.failure)
    throw (.translation fault)
  | .ok translation =>
    appendTo ledger (.success stamp (← timestamp) translation)
    return { runId := start.runId, outputPath := request.outputPath, translation }

end MakeRules
