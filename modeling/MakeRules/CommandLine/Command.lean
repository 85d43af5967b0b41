import MakeRules.CommandLine.Arguments
import MakeRules.Run

/-! The command: a run as its arguments ask for it, and what is printed of it.

It exits with 0 if the makefile is written, even if steps were left out; with 1 if the log
cannot be read or the makefile not be written; and with 2 if the arguments or the
configuration are wrong.
-/

set_option autoImplicit false

namespace MakeRules.CommandLine

/-- What the command prints, line by line, and its exit code. -/
structure Report where
  exitCode : Nat
  output : List Text := []
  errors : List Text := []
  deriving DecidableEq, Repr

def usage : Text :=
  "usage: logmake --log <build.log> --out <Makefile> [--invocation <string>] ".toList ++
    "[--config <logmake.json>] [--ledger <ledger.ndjson>] [--aggregate-target <name>]".toList

def complaint (message : Text) : Text :=
  "logmake: ".toList ++ message

namespace Report

/-- The arguments are no use, so the usage follows the message. -/
def misuse (message : Text) : Report where
  exitCode := 2
  errors := [complaint message, usage]

def failure (exitCode : Nat) (message : Text) : Report where
  exitCode := exitCode
  errors := [complaint message]

/-- The summary of a run, products as the paths that their targets name. -/
def summary (report : RunReport) : Json :=
  .obj [
    ("ok".toList, .bool true),
    ("run_id".toList, .str report.runId),
    ("output_path".toList, .str report.outputPath),
    ("rule_count".toList, .nat report.translation.rules.length),
    ("linked_products".toList,
      .arr (report.translation.linkedProducts.map fun target => .str (Escape.ofMakeTarget target))),
    ("diagnostic_count".toList, .nat report.translation.diagnostics.length)]

def success (report : RunReport) : Report where
  exitCode := 0
  output := [(summary report).print]
  errors := report.translation.diagnostics.map (·.format)

end Report

variable {m : Type → Type} [Monad m] [Host m]

/-- The configuration in the file that the arguments name, if they name one. -/
def loadConfig (path : Option Text) : m (Except ConfigFault Config) := do
  match path with
  | none => return .ok {}
  | some path =>
    let path := Path.resolve [← Host.directory, path]
    return Config.ofFile path (← Host.read path)

def request (arguments : Arguments) (logPath outputPath : Text) (config : Config) : RunRequest where
  logPath := logPath
  outputPath := outputPath
  invocation := arguments.value? .invocation
  aggregateTarget := arguments.value? .aggregateTarget
  ledgerPath := arguments.value? .ledger
  config := config

/-- Do a run and report it. What is wrong with the ledger or the clock is no matter of
the command's own. -/
def perform (request : RunRequest) : ExceptT RunFault m Report := do
  try
    return .success (← run request)
  catch
    | .translation fault => return .failure 1 fault.message
    | .config fault => return .failure 2 fault.message
    | fault => throw fault

def command (words : List Text) : ExceptT RunFault m Report := do
  match Arguments.ofWords words with
  | .error fault => return .misuse fault.message
  | .ok arguments =>
    if arguments.help then return { exitCode := 0, output := [usage] }
    match arguments.value? .log, arguments.value? .out with
    | some logPath, some outputPath =>
      match ← loadConfig (m := m) (arguments.value? .config) with
      | .error fault => return .failure 2 fault.message
      | .ok config => perform (request arguments logPath outputPath config)
    | _, _ => return .misuse "--log and --out are required".toList

end MakeRules.CommandLine
