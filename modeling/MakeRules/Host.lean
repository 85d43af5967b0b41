import MakeRules.FileView

/-! What a run asks of its surroundings: files, clocks and names for runs. -/

set_option autoImplicit false

namespace MakeRules

/-- The surroundings of a run. Where something fails, the answer is the reason. -/
class Host (m : Type → Type) where
  /-- The directory from which relative paths start. -/
  directory : m Text
  /-- The files at some paths, as they are now. -/
  view : List Text → m FileView
  read : Text → m (Except Text Text)
  /-- The time when a file was last changed. -/
  modified : Text → m (Except Text Int)
  write : Text → Text → m (Except Text Unit)
  append : Text → Text → m (Except Text Unit)
  /-- The time to be recorded, unless the clock shows none. -/
  clock : m (Option Int)
  /-- The time of the day, which is always there. -/
  wallClock : m Int
  freshId : m Text

end MakeRules
