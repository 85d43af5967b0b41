import MakeRules.Number.Binary64

/-! Diagnostics: what is reported of a step, and where. -/

set_option autoImplicit false

namespace MakeRules

inductive DiagnosticCode where
  | malformedMarker
  | missingDirectoryChange
  | missingCommand
  | primaryOutputMismatch
  | outputFileMapOptionMissing
  | outputFileMapUnreadable
  | outputFileMapInvalid
  | linkFileListOptionMissing
  | linkFileListUnreadable
  deriving DecidableEq, Repr

/-- A warning still yields a rule; an error means that the step was left out. -/
inductive Severity where
  | error
  | warning
  deriving DecidableEq, Repr

def Severity.name : Severity → Text
  | .error => "error".toList
  | .warning => "warning".toList

namespace DiagnosticCode

def all : List DiagnosticCode :=
  [.malformedMarker, .missingDirectoryChange, .missingCommand, .primaryOutputMismatch,
    .outputFileMapOptionMissing, .outputFileMapUnreadable, .outputFileMapInvalid,
    .linkFileListOptionMissing, .linkFileListUnreadable]

theorem mem_all (code : DiagnosticCode) : code ∈ all := by
  cases code <;> decide

def name : DiagnosticCode → Text
  | .malformedMarker => "STEP_MALFORMED_MARKER".toList
  | .missingDirectoryChange => "STEP_MISSING_DIRECTORY_CHANGE".toList
  | .missingCommand => "STEP_MISSING_COMMAND".toList
  | .primaryOutputMismatch => "SWIFT_PRIMARY_OUTPUT_MISMATCH".toList
  | .outputFileMapOptionMissing => "OUTPUT_FILE_MAP_OPTION_MISSING".toList
  | .outputFileMapUnreadable => "OUTPUT_FILE_MAP_UNREADABLE".toList
  | .outputFileMapInvalid => "OUTPUT_FILE_MAP_INVALID".toList
  | .linkFileListOptionMissing => "LINK_FILELIST_OPTION_MISSING".toList
  | .linkFileListUnreadable => "LINK_FILELIST_UNREADABLE".toList

def ofName? (name : Text) : Option DiagnosticCode :=
  all.find? (·.name == name)

/-- Only a link whose objects are not listed still yields its rule. -/
def severity : DiagnosticCode → Severity
  | .linkFileListOptionMissing => .warning
  | _ => .error

end DiagnosticCode

structure Span where
  file : Text
  line : Decimal
  deriving DecidableEq, Repr

structure Diagnostic where
  code : DiagnosticCode
  message : Text
  span : Span
  deriving DecidableEq, Repr

namespace Diagnostic

/-- The file named where the log has no name of its own. -/
def unnamedLog : Text := "<log>".toList

def severity (diagnostic : Diagnostic) : Severity :=
  diagnostic.code.severity

/-- A diagnostic on one line, for people. -/
def format (diagnostic : Diagnostic) : Text :=
  diagnostic.span.file ++ ":".toList ++ diagnostic.span.line.text ++ ": ".toList ++
    diagnostic.severity.name ++ ": ".toList ++ diagnostic.message ++ " [".toList ++
    diagnostic.code.name ++ "]".toList

def count (severity : Severity) (diagnostics : List Diagnostic) : Nat :=
  diagnostics.countP (·.severity == severity)

end Diagnostic

end MakeRules
