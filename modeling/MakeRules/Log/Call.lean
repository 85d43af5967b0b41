import MakeRules.Log.Cursor

/-! The calls of a cursor, and what each is answered. -/

set_option autoImplicit false

namespace MakeRules.Cursor

inductive Call where
  | next
  | nextNonBlank (skips : Text → Bool)
  | nextDirectoryChange
  | reset (position : Int)

inductive Answer where
  /-- The record that is read, if there is one. -/
  | record (read : Option Record)
  | change (read : Option DirectoryChange)
  | moved
  deriving DecidableEq, Repr

def answer (cursor : Cursor) : Call → Answer
  | .next => .record cursor.next.1
  | .nextNonBlank skips => .record (cursor.nextNonBlank skips).1
  | .nextDirectoryChange => .change cursor.nextDirectoryChange.1
  | .reset _ => .moved

/-- The cursor behind a call. -/
def after (cursor : Cursor) : Call → Cursor
  | .next => cursor.next.2
  | .nextNonBlank skips => (cursor.nextNonBlank skips).2
  | .nextDirectoryChange => cursor.nextDirectoryChange.2
  | .reset position => cursor.reset position

end MakeRules.Cursor
