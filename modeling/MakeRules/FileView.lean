import MakeRules.Path

/-! What a translation sees of the files around it. -/

set_option autoImplicit false

namespace MakeRules

/-- The working directory, and what reading a path gives: a text or the reason why there is none. -/
structure FileView where
  directory : Text
  read : Text → Except Text Text

namespace FileView

/-- The absolute path of a path that is relative to a directory. -/
def resolve (view : FileView) (directory path : Text) : Text :=
  Path.resolve [view.directory, directory, path]

end FileView

end MakeRules
