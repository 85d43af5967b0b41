import MakeRules.Text.Basic

/-! Absolute paths from relative ones. -/

set_option autoImplicit false

namespace MakeRules.Path

/-- Go to a segment: nothing and a dot stay, two dots go up but never above the root. -/
def enter (segments : List Text) (segment : Text) : List Text :=
  if segment = [] ∨ segment = ['.'] then segments
  else if segment = ['.', '.'] then segments.dropLast
  else segments ++ [segment]

/-- Go along a path; one that begins with a slash begins anew at the root. -/
def follow (segments : List Text) (path : Text) : List Text :=
  (path.splitOn '/').foldl enter (if path.head? = some '/' then [] else segments)

def ofSegments (segments : List Text) : Text :=
  '/' :: ['/'].intercalate segments

/-- The absolute path that is reached from the root along some paths in turn. -/
def resolve (paths : List Text) : Text :=
  ofSegments (paths.foldl follow [])

end MakeRules.Path
