import MakeRules.Json.Held
import MakeRules.Json.Printer
import MakeRules.Text.Space
import MakeRules.Translation

/-! The ledger of runs: a file to which each run appends one line of JSON. -/

set_option autoImplicit false

namespace MakeRules.Ledger

/-- How much a run produced and reported. -/
structure Counts where
  rules : Nat := 0
  linkedProducts : Nat := 0
  errors : Nat := 0
  warnings : Nat := 0
  deriving DecidableEq, Repr

def Counts.ofTranslation (translation : Translation) : Counts where
  rules := translation.rules.length
  linkedProducts := translation.linkedProducts.length
  errors := Diagnostic.count .error translation.diagnostics
  warnings := Diagnostic.count .warning translation.diagnostics

/-- What made a run fail: an error with a name, or a value that is none. -/
inductive Cause where
  | error (name message : Text)
  | value (thrown : Json)
  deriving DecidableEq, Repr

structure Failure where
  name : Text
  message : Text
  deriving DecidableEq, Repr

/-- An error keeps its name, or the general one if its own is blank. A value that is none is
shown as its plain text, if it has one. -/
def Failure.ofCause? : Cause → Option Failure
  | .error name message => some ⟨name.nonBlank?.getD "Error".toList, message⟩
  | .value thrown => thrown.plain?.map (⟨"NonErrorThrown".toList, ·⟩)

/-- One line of the ledger. What it says of its run are members of an object. -/
structure Entry where
  run : List (Text × Json)
  completedAt : Text
  counts : Counts := {}
  failure : Option Failure := none
  deriving DecidableEq, Repr

namespace Entry

def success (run : List (Text × Json)) (completedAt : Text) (translation : Translation) :
    Entry where
  run := run
  completedAt := completedAt
  counts := .ofTranslation translation

/-- A run that failed has no rule set, so it counts nothing. -/
def failed (run : List (Text × Json)) (completedAt : Text) (failure : Failure) : Entry where
  run := run
  completedAt := completedAt
  failure := some failure

def version : Text := "0.1.0".toList

def outcome : Option Failure → Json
  | none => .obj [("status".toList, .str "success".toList)]
  | some failure => .obj [
      ("status".toList, .str "failure".toList),
      ("error".toList, .obj [
        ("name".toList, .str failure.name),
        ("message".toList, .str failure.message)])]

/-- What stands before what is said of the run. -/
def opening : List (Text × Json) :=
  [("schema_version".toList, .str version)]

/-- What is known at the end of the run. -/
def closing (entry : Entry) : List (Text × Json) :=
  [("completed_at".toList, .str entry.completedAt),
    ("counts".toList, .obj [
      ("rules".toList, .nat entry.counts.rules),
      ("linked_products".toList, .nat entry.counts.linkedProducts),
      ("errors".toList, .nat entry.counts.errors),
      ("warnings".toList, .nat entry.counts.warnings)]),
    ("outcome".toList, outcome entry.failure)]

/-- The object that an entry is. What is said of the run stands behind the version and may
replace it; what is known at the end replaces what the run says of it. Keys that are indexes
go before all others, the version too. -/
def toJson (entry : Entry) : Json :=
  .obj (Json.indexesFirst (Json.collect (opening ++ entry.run ++ entry.closing)))

def line (entry : Entry) : Text :=
  entry.toJson.print ++ ['\n']

end Entry

end MakeRules.Ledger
