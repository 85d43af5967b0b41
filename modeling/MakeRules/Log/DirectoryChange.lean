import MakeRules.Escape
import MakeRules.Log.Record
import MakeRules.Words

/-! The record that changes the working directory before a command.

It reads `cd` and a path, perhaps with `/usr/bin/time` in front. A path with a
quote in it is read as a command word if it is exactly one; else its backslashes
are undone and its bare spaces are part of it.
-/

set_option autoImplicit false

namespace MakeRules

def changeTo (directory : Text) : Text :=
  "cd ".toList ++ Escape.recipePath directory

structure DirectoryChange where
  record : Record
  directory : Text
  /-- What a recipe run in the directory begins with. -/
  recipePrefix : Text := changeTo directory
  deriving DecidableEq, Repr

namespace DirectoryChange

/-- The operand behind `cd` and its white space. Where only white space follows, the
last of it is the operand and the rest the separation. -/
def operandBehind? (behind : Text) : Option Text :=
  match behind.trimStart, behind.reverse with
  | [], last :: _ :: _ => if isLineEnd last then none else some [last]
  | [], _ => none
  | operand, _ => if operand.any isLineEnd then none else some operand

def operand? (text : Text) : Option Text :=
  let command := ((text.behindWord? "/usr/bin/time".toList).map Text.trimStart).getD text
  (command.behindWord? "cd".toList).bind operandBehind?

def ofOperand (operand : Text) : Text :=
  if operand.any (fun c => c == '\'' || c == '"') then
    match splitWords operand with
    | [word] => word.value
    | _ => operand
  else Escape.ofShell operand

def ofRecord? (record : Record) : Option DirectoryChange :=
  (operand? record.text).map fun operand => { record, directory := ofOperand operand }

theorem record_of_ofRecord? {record : Record} {change : DirectoryChange}
    (reads : ofRecord? record = some change) : change.record = record := by
  obtain ⟨operand, _, rfl⟩ := Option.map_eq_some_iff.1 reads
  rfl

end DirectoryChange

end MakeRules
