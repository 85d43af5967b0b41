import MakeRules.Disk
import MakeRules.Host

/-! A host made of values: the files that there are, and what the clock shows next. -/

set_option autoImplicit false

namespace MakeRules

structure Machine where
  directory : Text
  disk : Disk
  /-- What the clock shows next; the last showing repeats. -/
  clock : List (Option Int) := []
  wallClock : Int := 0
  freshId : Text := []
  /-- The paths that have been written, the latest first. -/
  written : List Text := []

namespace Machine

/-- Give a file a text, unless that fails. -/
def put (path text : Text) : StateM Machine (Except Text Unit) := do
  let machine ← get
  match machine.disk.writeFault? path with
  | some reason => return .error reason
  | none =>
    set { machine with disk := machine.disk.put path text, written := path :: machine.written }
    return .ok ()

def tick : StateM Machine (Option Int) := do
  let machine ← get
  match machine.clock with
  | [] => return none
  | [last] => return last
  | time :: rest =>
    set { machine with clock := rest }
    return time

instance : Host (StateM Machine) where
  directory := return (← get).directory
  view _ := return { directory := (← get).directory, read := (← get).disk.read }
  read path := return (← get).disk.read path
  modified path := return (← get).disk.modified path
  write := put
  append path text := do put path ((← get).disk.text path ++ text)
  clock := tick
  wallClock := return (← get).wallClock
  freshId := return (← get).freshId

end Machine

end MakeRules
