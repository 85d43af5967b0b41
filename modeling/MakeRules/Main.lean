import MakeRules.CommandLine.Command
import MakeRules.Disk
import MakeRules.Text.Utf8
import MakeRules.Uuid
import Std.Time.DateTime.Timestamp

/-! The program: the command on the files and clocks of the system that it runs on. -/

set_option autoImplicit false

namespace MakeRules

/-- Do something with the file at a path; the answer is the reason if that fails. -/
def attempt {α : Type} (path : Text) (action : IO α) : IO (Except Text α) := do
  try
    return .ok (← action)
  catch
    | .noFileOrDirectory .. => return .error (Disk.missing path)
    | error => return .error (Text.ofString (toString error))

def readFile (path : Text) : IO (Except Text Text) :=
  attempt path do
    let bytes ← IO.FS.readBinFile path.string
    return Utf8.decode (bytes.toList.map (·.toNat))

def modifiedTime (path : Text) : IO (Except Text Int) :=
  attempt path do
    let file := (← IO.currentDir) / path.string
    let time := (← file.metadata).modified
    return time.sec * 1000 + time.nsec.toNat / 1000000

def now : IO Int := do
  return (← Std.Time.Timestamp.now).toMillisecondsSinceUnixEpoch.val

instance : Host IO where
  directory := return Text.ofString (← IO.currentDir).toString
  view paths := do
    let contents ← paths.mapM fun path => return (path, ← readFile path)
    return {
      directory := Text.ofString (← IO.currentDir).toString
      read := fun path => (contents.lookup path).getD (.error (Disk.missing path)) }
  read := readFile
  modified := modifiedTime
  write path text :=
    attempt path (IO.FS.writeFile path.string text.string)
  append path text :=
    attempt path do
      let handle ← IO.FS.Handle.mk path.string .append
      handle.putStr text.string
  clock := some <$> now
  wallClock := now
  freshId := return Uuid.text ((← IO.getRandomBytes 16).toList.map (·.toNat))

end MakeRules

/-- Do what the arguments ask for, print its report, and exit with its code. -/
def main (arguments : List String) : IO UInt32 := do
  match ← (MakeRules.CommandLine.command (arguments.map MakeRules.Text.ofString)).run with
  | .error fault =>
    IO.eprintln fault.message.string
    return 1
  | .ok report =>
    for line in report.errors do
      IO.eprintln line.string
    for line in report.output do
      IO.println line.string
    return report.exitCode.toUInt32
