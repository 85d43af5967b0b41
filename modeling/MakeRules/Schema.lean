import MakeRules.Json.Basic
import MakeRules.Text.Numeral

/-! Schemas of JSON objects, and the issues that a value has with one.

All issues are found, in a fixed order: the type of the value alone if it is
wrong; else required members, members that are not allowed, and then the
members one by one in the order of the schema. A member of the wrong type has
no further issue.
-/

set_option autoImplicit false

namespace MakeRules

inductive Keyword where
  | type
  | minLength
  | pattern
  | additionalProperties
  | required
  | const
  deriving DecidableEq, Repr

def Keyword.name : Keyword → Text
  | .type => "type".toList
  | .minLength => "minLength".toList
  | .pattern => "pattern".toList
  | .additionalProperties => "additionalProperties".toList
  | .required => "required".toList
  | .const => "const".toList

/-- Something wrong with a value: where, by which keyword, and in words. -/
structure Issue where
  path : Text
  keyword : Text
  message : Text
  deriving DecidableEq, Repr

namespace Issue

def of (path : Text) (keyword : Keyword) (message : Text) : Issue :=
  ⟨path, keyword.name, message⟩

/-- The path as messages show it: a slash for the whole value. -/
def place (issue : Issue) : Text :=
  if issue.path.isEmpty then ['/'] else issue.path

/-- What is said of an issue that has no words of its own. -/
def unspecified : Text := "validation failed".toList

/-- The issue of a whole value that is no object. -/
def notObject : Issue :=
  of [] .type "must be object".toList

end Issue

/-- A set of texts: one or more characters out of some. -/
structure Pattern where
  source : Text
  allows : Char → Bool

def Pattern.accepts (pattern : Pattern) (text : Text) : Bool :=
  !text.isEmpty && text.all pattern.allows

/-- What a member that holds text must satisfy. -/
structure TextRule where
  minLength : Nat := 0
  pattern : Option Pattern := none

structure Schema where
  required : List Text := []
  members : List (Text × TextRule) := []
  /-- Whether members that the schema does not name are allowed. -/
  isOpen : Bool := false

namespace TextRule

def issues (rule : TextRule) (path text : Text) : List Issue :=
  let short :=
    if text.chars.length < rule.minLength then
      [Issue.of path .minLength
        ("must NOT have fewer than ".toList ++ Text.ofNat rule.minLength ++ " characters".toList)]
    else []
  let mismatch :=
    match rule.pattern with
    | some pattern =>
      if pattern.accepts text then []
      else [Issue.of path .pattern
        ("must match pattern \"".toList ++ pattern.source ++ "\"".toList)]
    | none => []
  short ++ mismatch

def memberIssues (rule : TextRule) (path : Text) : Json → List Issue
  | .str text => rule.issues path text
  | _ => [Issue.of path .type "must be string".toList]

end TextRule

namespace Schema

def missing (schema : Schema) (members : List (Text × Json)) : List Issue :=
  (schema.required.filter fun key => (Json.member? key members).isNone).map fun key =>
    Issue.of [] .required ("must have required property '".toList ++ key ++ "'".toList)

def unknown (schema : Schema) (members : List (Text × Json)) : List Issue :=
  if schema.isOpen then []
  else (members.filter fun member => schema.members.all (·.1 != member.1)).map fun _ =>
    Issue.of [] .additionalProperties "must NOT have additional properties".toList

def wrong (schema : Schema) (members : List (Text × Json)) : List Issue :=
  schema.members.flatMap fun (key, rule) =>
    match Json.member? key members with
    | some value => rule.memberIssues ('/' :: key) value
    | none => []

def issues (schema : Schema) : Json → List Issue
  | .obj members => schema.missing members ++ schema.unknown members ++ schema.wrong members
  | _ => [Issue.notObject]

/-- Any object at all. -/
def outputFileMap : Schema where
  isOpen := true

/-- The letters, digits and marks that make target names consist of. -/
def isNameChar (c : Char) : Bool :=
  c.isAlphanum || c == '_' || c == '.' || c == '-'

def targetName : Pattern where
  source := "^[A-Za-z0-9_.-]+$".toList
  allows := isNameChar

def versionKey : Text := "schema_version".toList
def aggregateTargetKey : Text := "aggregate_target".toList
def invocationKey : Text := "invocation".toList
def ledgerPathKey : Text := "ledger_path".toList

def config : Schema where
  required := [versionKey]
  members := [
    (versionKey, { minLength := 1 }),
    (aggregateTargetKey, { pattern := some targetName }),
    (invocationKey, {}),
    (ledgerPathKey, { minLength := 1 })]

end Schema

end MakeRules
