import MakeRules.Text.Basic

/-! Make rules with one recipe line. -/

set_option autoImplicit false

namespace MakeRules

/-- Target and prerequisites are written as make reads them. -/
structure Rule where
  target : Text
  prerequisites : List Text
  workingDir : Text
  recipe : Text
  deriving DecidableEq, Repr

def objectSuffix : Text := ".o".toList

def isObjectFile (path : Text) : Bool :=
  objectSuffix.isSuffixOf path

end MakeRules
