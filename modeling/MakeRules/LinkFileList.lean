import MakeRules.Escape
import MakeRules.FileView
import MakeRules.Rule.Table

/-! Link file lists: the objects that a link reads, one on a line. -/

set_option autoImplicit false

namespace MakeRules.LinkFileList

/-- The paths of a list: its lines, trimmed, without the blank ones. -/
def ofText (text : Text) : List Text :=
  text.lines.filterMap Text.nonBlank?

def read (view : FileView) (path : Text) : Except Text (List Text) :=
  (view.read path).map ofText

def unreadableMessage (path reason : Text) : Text :=
  "Cannot read link file list ".toList ++ path ++ ": ".toList ++ reason

/-- Whether make should look at an object of a link: it has a rule, or was built elsewhere. -/
def isTracked (table : RuleTable) (path : Text) : Bool :=
  table.has (Escape.makeTarget path) || isObjectFile path

/-- The prerequisites of a link, each where it occurs first. -/
def prerequisites (table : RuleTable) (paths : List Text) : List Text :=
  ((paths.filter (isTracked table)).map Escape.makeTarget).eraseDups

end MakeRules.LinkFileList
