import MakeRules.Log.DirectoryChange

/-! A position in a log, from which records are read and to which reading returns. -/

set_option autoImplicit false

namespace MakeRules

/-- A log and those of its records that lie ahead. -/
structure Cursor where
  log : Log
  ahead : Log
  ahead_suffix : ahead <:+ log := by simp

namespace Cursor

def start (log : Log) : Cursor where
  log := log
  ahead := log

def mark (cursor : Cursor) : Nat :=
  cursor.log.length - cursor.ahead.length

def isAtEnd (cursor : Cursor) : Bool :=
  cursor.ahead.isEmpty

/-- Go on behind so many of the records ahead. -/
def skip (cursor : Cursor) (count : Nat) : Cursor where
  log := cursor.log
  ahead := cursor.ahead.drop count
  ahead_suffix := (List.drop_suffix count cursor.ahead).trans cursor.ahead_suffix

def next (cursor : Cursor) : Option Record × Cursor :=
  (cursor.ahead.head?, cursor.skip 1)

/-- Whether the search for the next record passes over this one. -/
def passes (skips : Text → Bool) (record : Record) : Bool :=
  record.isBlank || skips record.text

/-- The next record that is neither blank nor skipped. Without one the cursor ends at the end. -/
def nextNonBlank (cursor : Cursor) (skips : Text → Bool) : Option Record × Cursor :=
  (cursor.skip (cursor.ahead.takeWhile (passes skips)).length).next

/-- The directory change next in line; any other record stays unread. -/
def nextDirectoryChange (cursor : Cursor) : Option DirectoryChange × Cursor :=
  match cursor.ahead.head?.bind DirectoryChange.ofRecord? with
  | some change => (some change, cursor.skip 1)
  | none => (none, cursor)

/-- Go to a position, or to the nearest one that the log has. -/
def reset (cursor : Cursor) (position : Int) : Cursor where
  log := cursor.log
  ahead := cursor.log.drop position.toNat
  ahead_suffix := List.drop_suffix _ _

@[simp] theorem mark_start (log : Log) : (start log).mark = 0 := by
  simp [mark, start]

theorem mark_le (cursor : Cursor) : cursor.mark ≤ cursor.log.length :=
  Nat.sub_le _ _

@[simp] theorem mark_reset (cursor : Cursor) (position : Int) :
    (cursor.reset position).mark = min position.toNat cursor.log.length := by
  simp only [mark, reset, List.length_drop]
  omega

end Cursor

end MakeRules
