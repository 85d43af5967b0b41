import MakeRules.Text.Basic

/-! Files as values: their texts, their times, and what fails on them.

A file holds the text that it was given, also the units of it that make up no character.
-/

set_option autoImplicit false

namespace MakeRules

/-- A file, and what fails on it. -/
structure File where
  text : Text := []
  modified : Int := 0
  readFault : Option Text := none
  modifiedFault : Option Text := none
  writeFault : Option Text := none
  deriving DecidableEq, Repr

abbrev Disk := Text → Option File

namespace Disk

def missing (path : Text) : Text :=
  "ENOENT: no such file or directory, open '".toList ++ path ++ "'".toList

def read (disk : Disk) (path : Text) : Except Text Text :=
  match disk path with
  | none => .error (missing path)
  | some file =>
    match file.readFault with
    | some reason => .error reason
    | none => .ok file.text

def modified (disk : Disk) (path : Text) : Except Text Int :=
  let file := (disk path).getD {}
  match file.modifiedFault with
  | some reason => .error reason
  | none => .ok file.modified

def text (disk : Disk) (path : Text) : Text :=
  ((disk path).map (·.text)).getD []

/-- Why the file at a path cannot be written, if it cannot. -/
def writeFault? (disk : Disk) (path : Text) : Option Text :=
  (disk path).bind (·.writeFault)

/-- The files after one of them is given a text. It keeps its time, and nothing fails on it. -/
def put (disk : Disk) (path text : Text) : Disk := fun other =>
  if other = path then some { text, modified := ((disk path).getD {}).modified } else disk other

@[simp] theorem text_put_self (disk : Disk) (path text : Text) :
    (disk.put path text).text path = text := by
  simp [Disk.text, put]

/-- Writing a file leaves the others as they are. -/
theorem put_of_ne (disk : Disk) {path other : Text} (text : Text) (different : other ≠ path) :
    disk.put path text other = disk other := by
  simp [put, different]

end Disk

end MakeRules
