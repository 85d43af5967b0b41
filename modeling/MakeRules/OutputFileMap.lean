import MakeRules.Diagnostic
import MakeRules.FileView
import MakeRules.Json.Parser
import MakeRules.Schema
import MakeRules.Step.Basic
import MakeRules.Text.Units

/-! Output file maps: JSON objects that give each source the files made from it.

Of the members only Swift sources with an object file count, in the order of
the sources' 16-bit units.
-/

set_option autoImplicit false

namespace MakeRules.OutputFileMap

inductive Fault where
  | unreadable (path reason : Text)
  | notJson (path : Text)
  | notMapping (path : Text) (issue : Issue)
  deriving DecidableEq, Repr

namespace Fault

def code : Fault → DiagnosticCode
  | .unreadable .. => .outputFileMapUnreadable
  | .notJson _ => .outputFileMapInvalid
  | .notMapping .. => .outputFileMapInvalid

def message : Fault → Text
  | .unreadable path reason =>
    "Cannot read output file map ".toList ++ path ++ ": ".toList ++ reason
  | .notJson path =>
    "Output file map ".toList ++ path ++ " is not valid JSON: ".toList ++ Json.invalid
  | .notMapping path issue =>
    "Output file map ".toList ++ path ++ " is not a mapping at ".toList ++ issue.place ++
      ": ".toList ++ issue.message

end Fault

/-- The source and object that a member gives, if it is one of a Swift source with an object. -/
def entry? (source : Text) : Json → Option SourceObject
  | .obj outputs =>
    match (Json.member? "object".toList outputs).bind Json.text? with
    | some object =>
      if ".swift".toList.isSuffixOf source && !object.isEmpty then some { source, object } else none
    | none => none
  | _ => none

def entries (members : List (Text × Json)) : List SourceObject :=
  (members.mergeSort fun left right => decide (left.1.units ≤ right.1.units)).filterMap
    fun (key, value) => entry? key value

def ofJson (path : Text) : Json → Except Fault (List SourceObject)
  | .obj members => .ok (entries members)
  | _ => .error (.notMapping path Issue.notObject)

def read (view : FileView) (path : Text) : Except Fault (List SourceObject) :=
  match view.read path with
  | .error reason => .error (.unreadable path reason)
  | .ok text =>
    match Json.parse? text with
    | none => .error (.notJson path)
    | some value => ofJson path value

end MakeRules.OutputFileMap
