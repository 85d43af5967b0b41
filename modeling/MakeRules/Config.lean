import MakeRules.Json.Parser
import MakeRules.Schema
import MakeRules.Text.Space

/-! Configurations of a run, read from JSON.

A value is looked at in three steps: it must be an object, of the supported
version, and satisfy the schema. The first step that fails is reported.
-/

set_option autoImplicit false

namespace MakeRules

/-- What a run is told unless its request says otherwise. -/
structure Config where
  aggregateTarget : Option Text := none
  invocation : Option Text := none
  ledgerPath : Option Text := none
  deriving DecidableEq, Repr

inductive ConfigFaultCode where
  | invalidInput
  | versionIncompatible
  | schemaValidationFailed
  deriving DecidableEq, Repr

def ConfigFaultCode.name : ConfigFaultCode → Text
  | .invalidInput => "INVALID_INPUT".toList
  | .versionIncompatible => "VERSION_INCOMPATIBLE".toList
  | .schemaValidationFailed => "SCHEMA_VALIDATION_FAILED".toList

/-- Why a configuration, or a target name given outside one, is refused. -/
inductive ConfigFault where
  | unloadable (path reason : Text)
  | notObject
  | versionMissing
  | versionIncompatible (version : Text)
  | invalid (first : Issue) (rest : List Issue)
  | invalidTarget (name : Text) (first : Issue) (rest : List Issue)
  deriving DecidableEq, Repr

namespace Config

def supportedVersion : Text := "0.1.0".toList

def contract : Text := "TranslatorConfig".toList

end Config

namespace ConfigFault

def code : ConfigFault → ConfigFaultCode
  | .unloadable .. => .invalidInput
  | .notObject => .invalidInput
  | .versionIncompatible _ => .versionIncompatible
  | .versionMissing => .schemaValidationFailed
  | .invalid .. => .schemaValidationFailed
  | .invalidTarget .. => .schemaValidationFailed

def expectedVersion : Text :=
  "expected \"".toList ++ Config.supportedVersion ++ "\"".toList

def message : ConfigFault → Text
  | .unloadable path reason =>
    "Cannot load configuration ".toList ++ path ++ ": ".toList ++ reason
  | .notObject => Config.contract ++ " contract input must be an object".toList
  | .versionMissing => Config.contract ++ " schema_version is required".toList
  | .versionIncompatible version =>
    Config.contract ++ " schema_version \"".toList ++ version ++ "\" is incompatible; ".toList ++
      expectedVersion
  | .invalid first _ =>
    Config.contract ++ " contract validation failed at ".toList ++ first.place ++ ": ".toList ++
      first.message
  | .invalidTarget name first _ =>
    "Aggregate target \"".toList ++ name ++ "\" is not a valid make target name: ".toList ++
      first.message

def issues : ConfigFault → List Issue
  | .unloadable .. => []
  | .notObject => []
  | .versionMissing =>
    [Issue.of ('/' :: Schema.versionKey) .required "schema_version is required".toList]
  | .versionIncompatible _ => [Issue.of ('/' :: Schema.versionKey) .const expectedVersion]
  | .invalid first rest => first :: rest
  | .invalidTarget _ first rest => first :: rest

end ConfigFault

namespace Config

/-- The text that a key has among the members of an object. -/
def text? (key : Text) (members : List (Text × Json)) : Option Text :=
  (Json.member? key members).bind Json.text?

def ofMembers (members : List (Text × Json)) : Config where
  aggregateTarget := text? Schema.aggregateTargetKey members
  invocation := text? Schema.invocationKey members
  ledgerPath := text? Schema.ledgerPathKey members

def toJson (config : Config) : Json :=
  let member (key : Text) (value : Option Text) : List (Text × Json) :=
    (value.map fun text => (key, Json.str text)).toList
  .obj ((Schema.versionKey, .str supportedVersion) ::
    (member Schema.aggregateTargetKey config.aggregateTarget ++
      member Schema.invocationKey config.invocation ++
      member Schema.ledgerPathKey config.ledgerPath))

def ofJson : Json → Except ConfigFault Config
  | .obj members =>
    match text? Schema.versionKey members with
    | none => .error .versionMissing
    | some version =>
      if version.trim.isEmpty then .error .versionMissing
      else if version ≠ supportedVersion then .error (.versionIncompatible version)
      else
        match Schema.config.issues (.obj members) with
        | [] => .ok (ofMembers members)
        | first :: rest => .error (.invalid first rest)
  | _ => .error .notObject

def ofFile (path : Text) (contents : Except Text Text) : Except ConfigFault Config :=
  match contents with
  | .error reason => .error (.unloadable path reason)
  | .ok text =>
    match Json.parse? text with
    | none => .error (.unloadable path Json.invalid)
    | some value => ofJson value

/-- A target name given outside a configuration is held to the schema of one. -/
def requireTargetName (name : Text) : Except ConfigFault Text :=
  match Schema.config.issues { aggregateTarget := some name : Config }.toJson with
  | [] => .ok name
  | first :: rest => .error (.invalidTarget name first rest)

end Config

end MakeRules
