import MakeRules.Proofs.Config
import MakeRules.Proofs.Json.Members

/-! What is loaded of a JSON value, and what is told of a value that is no configuration.

A configuration keeps all members of the object that it is loaded from, so it is loaded again as
it is. Any other value is refused for the first of three faults that it has: it is no object, it is
of another version, or it is at odds with the schema.
-/

set_option autoImplicit false

namespace MakeRules

theorem Json.member?_append (key : Text) (front back : List (Text × Json)) :
    member? key (front ++ back) = (member? key front).or (member? key back) := by
  rw [member?, List.find?_append, Option.map_or]
  rfl

namespace Config

open Schema

/-- All that can come of loading a value. -/
inductive Loads : Json → Except ConfigFault Config → Prop where
  | notObject {value : Json} (other : ∀ members, value ≠ .obj members) :
      Loads value (.error .notObject)
  | versionMissing {members : List (Text × Json)}
      (blank : ∀ text, Json.member? versionKey members = some (.str text) → text.trim = []) :
      Loads (.obj members) (.error .versionMissing)
  | versionIncompatible {members : List (Text × Json)} {version : Text}
      (found : Json.member? versionKey members = some (.str version))
      (some_char : version.trim ≠ []) (other : version ≠ supportedVersion) :
      Loads (.obj members) (.error (.versionIncompatible version))
  | invalid {members : List (Text × Json)} {first : Issue} {rest : List Issue}
      (version : Json.member? versionKey members = some (.str supportedVersion))
      (refused : ¬Accepts members) : Loads (.obj members) (.error (.invalid first rest))
  | accepted {members : List (Text × Json)} (accepts : Accepts members) :
      Loads (.obj members) (.ok (ofMembers members))

theorem text?_eq_some_iff {key : Text} {members : List (Text × Json)} {text : Text} :
    text? key members = some text ↔ Json.member? key members = some (.str text) := by
  simp only [text?, Option.bind_eq_some_iff, Json.text?_eq_some_iff, exists_eq_right]

theorem loads_ofJson (value : Json) : Loads value (ofJson value) := by
  cases value with
  | obj members =>
    simp only [ofJson]
    split
    · next none =>
      refine .versionMissing fun text found => ?_
      cases none.symm.trans (text?_eq_some_iff.2 found)
    · next version reads =>
      have found := text?_eq_some_iff.1 reads
      split
      · next blank =>
        refine .versionMissing fun other member => ?_
        cases found.symm.trans member
        exact List.isEmpty_iff.1 blank
      · next some_char =>
        split
        · next other =>
          exact .versionIncompatible found (mt List.isEmpty_iff.2 some_char) other
        · next same =>
          rw [not_not.1 same] at found
          have accepts_iff := issues_eq_nil_iff_accepts found
          split
          · next none => exact .accepted (accepts_iff.1 none)
          · next some =>
            refine .invalid found fun accepts => ?_
            cases some.symm.trans (accepts_iff.2 accepts)
  | _ => exact .notObject nofun

theorem ofJson_obj {members : List (Text × Json)} (accepts : Accepts members) :
    ofJson (.obj members) = .ok (ofMembers members) := by
  have loads := loads_ofJson (.obj members)
  generalize ofJson (.obj members) = result at loads
  have version := accepts.version
  cases loads with
  | notObject other => exact absurd rfl (other members)
  | versionMissing blank =>
    exact absurd (blank _ version) (by decide)
  | versionIncompatible found _ other =>
    exact absurd (Json.str.inj (Option.some.inj (found.symm.trans version))) other
  | invalid _ refused => exact absurd accepts refused
  | accepted => rfl

theorem ofJson_eq_ok_iff {value : Json} {config : Config} :
    ofJson value = .ok config ↔
      ∃ members, value = .obj members ∧ Accepts members ∧ config = ofMembers members := by
  constructor
  · intro loaded
    have loads := loads_ofJson value
    rw [loaded] at loads
    cases loads with
    | @accepted members accepts => exact ⟨members, rfl, accepts, rfl⟩
  · rintro ⟨members, rfl, accepts, rfl⟩
    exact ofJson_obj accepts

/-- Of an object with the supported version, the schema alone decides. -/
theorem exists_ofJson_eq_ok_iff {members : List (Text × Json)}
    (version : Json.member? versionKey members = some (.str supportedVersion)) :
    (∃ config, ofJson (.obj members) = .ok config) ↔ Schema.config.issues (.obj members) = [] := by
  rw [issues_eq_nil_iff_accepts version]
  constructor
  · rintro ⟨config, loaded⟩
    obtain ⟨_, ⟨⟩, accepts, -⟩ := ofJson_eq_ok_iff.1 loaded
    exact accepts
  · exact fun accepts => ⟨_, ofJson_obj accepts⟩

/-- A text that is kept is a member as it is, and one that is not there is kept out. -/
theorem map_str_text? {key : Text} {members : List (Text × Json)}
    (held : ∀ value, Json.member? key members = some value → ∃ text, value = .str text) :
    (text? key members).map .str = Json.member? key members := by
  unfold text?
  cases found : Json.member? key members with
  | none => rfl
  | some value =>
    obtain ⟨text, rfl⟩ := held value found
    rfl

section

variable {members : List (Text × Json)} (accepts : Accepts members)

include accepts

theorem Accepts.map_aggregateTarget :
    (ofMembers members).aggregateTarget.map .str = Json.member? aggregateTargetKey members := by
  refine map_str_text? fun value found => ?_
  obtain ⟨name, rfl, -⟩ := accepts.target value found
  exact ⟨name, rfl⟩

theorem Accepts.map_invocation :
    (ofMembers members).invocation.map .str = Json.member? invocationKey members :=
  map_str_text? accepts.invocation

theorem Accepts.map_ledgerPath :
    (ofMembers members).ledgerPath.map .str = Json.member? ledgerPathKey members := by
  refine map_str_text? fun value found => ?_
  obtain ⟨text, rfl, -⟩ := accepts.ledgerPath value found
  exact ⟨text, rfl⟩

end

/-- The target of a configuration that is accepted has passed the schema. -/
theorem accepts_of_ofJson {value : Json} {config : Config} (reads : ofJson value = .ok config)
    {name : Text} (target : config.aggregateTarget = some name) :
    targetName.accepts name = true := by
  obtain ⟨members, -, accepts, rfl⟩ := ofJson_eq_ok_iff.1 reads
  have found := accepts.map_aggregateTarget
  rw [target] at found
  obtain ⟨_, ⟨⟩, name_chars⟩ := accepts.target _ found.symm
  exact Pattern.accepts_iff.2 name_chars

/-- The member that an optional text is, under a key. -/
def optional (key : Text) (value : Option Text) : List (Text × Json) :=
  (value.map fun text => (key, Json.str text)).toList

/-- The members of a configuration that is written as an object. -/
def members (config : Config) : List (Text × Json) :=
  [(versionKey, .str supportedVersion)] ++
    (optional aggregateTargetKey config.aggregateTarget ++
      optional invocationKey config.invocation ++ optional ledgerPathKey config.ledgerPath)

theorem toJson_eq (config : Config) : config.toJson = .obj config.members := by
  obtain ⟨target, invocation, ledgerPath⟩ := config
  cases target <;> cases invocation <;> cases ledgerPath <;> rfl

theorem member?_optional (key name : Text) (value : Option Text) :
    Json.member? key (optional name value) = if name = key then value.map .str else none := by
  cases value with
  | none => simp [optional, Json.member?]
  | some text =>
    by_cases same : name = key
    · simp [optional, Json.member?, same]
    · simp [optional, Json.member?, same]

theorem mem_keys_of_mem_members {config : Config} {member : Text × Json}
    (found : member ∈ config.members) : member.1 ∈ keys := by
  simp only [members, optional, List.mem_append, List.mem_singleton, Option.mem_toList,
    Option.map_eq_some_iff] at found
  rcases found with rfl | (⟨text, -, rfl⟩ | ⟨text, -, rfl⟩) | ⟨text, -, rfl⟩ <;> simp [keys]

theorem member?_of_not_mem_keys {key : Text} (unknown : key ∉ keys)
    {members : List (Text × Json)} (known : ∀ member ∈ members, member.1 ∈ keys) :
    Json.member? key members = none := by
  rw [Json.member?, Option.map_eq_none_iff, List.find?_eq_none]
  exact fun member found same => unknown (beq_iff_eq.1 same ▸ known member found)

/-- A configuration keeps each member of the object that it is loaded from, and adds none. -/
theorem member?_members_ofMembers {members : List (Text × Json)} (accepts : Accepts members)
    (key : Text) : Json.member? key (ofMembers members).members = Json.member? key members := by
  by_cases known : key ∈ keys
  · simp only [Config.members, Json.member?_append, member?_optional]
    simp only [keys, List.mem_cons, List.not_mem_nil, or_false] at known
    rcases known with rfl | rfl | rfl | rfl
    · rw [accepts.version]
      rfl
    · rw [← accepts.map_aggregateTarget]
      simp +decide [Json.member?]
    · rw [← accepts.map_invocation]
      simp +decide [Json.member?]
    · rw [← accepts.map_ledgerPath]
      simp +decide [Json.member?]
  · rw [member?_of_not_mem_keys known accepts.known,
      member?_of_not_mem_keys known fun _ => mem_keys_of_mem_members]

theorem ofMembers_congr {left right : List (Text × Json)}
    (same : ∀ key, Json.member? key left = Json.member? key right) :
    ofMembers left = ofMembers right := by
  simp only [ofMembers, text?, same]

/-- What a configuration is written as is loaded as that configuration. -/
theorem ofJson_toJson_ofMembers {members : List (Text × Json)} (accepts : Accepts members) :
    ofJson (ofMembers members).toJson = .ok (ofMembers members) := by
  have same := member?_members_ofMembers accepts
  have again : Accepts (ofMembers members).members := by
    refine ⟨fun _ => mem_keys_of_mem_members, ?_, ?_, ?_, ?_⟩
    · rw [same]
      exact accepts.version
    · rw [same]
      exact accepts.target
    · rw [same]
      exact accepts.invocation
    · rw [same]
      exact accepts.ledgerPath
  rw [toJson_eq, ofJson_obj again, ofMembers_congr same]

/-- A value is loaded if and only if it is an object with the members of a configuration. What is
loaded keeps these members as they are, and is loaded again as it is. Any other value is refused:
as no object just if it is none, for its version just if that is a string which is neither blank
nor the supported one, and for all else with the issues that are found. -/
theorem loaded_or_refused (value : Json) :
    ((∃ config, ofJson value = .ok config) ↔ ∃ members, value = .obj members ∧ Accepts members) ∧
      (∀ config, ofJson value = .ok config → ∃ members kept, value = .obj members ∧
        config.toJson = .obj kept ∧ (∀ key, Json.member? key kept = Json.member? key members) ∧
        ofJson config.toJson = .ok config) ∧
      ∀ fault, ofJson value = .error fault →
        (fault.code = .invalidInput ↔ ∀ members, value ≠ .obj members) ∧
        (fault.code = .versionIncompatible ↔ ∃ members text, value = .obj members ∧
          Json.member? versionKey members = some (.str text) ∧ text.trim ≠ [] ∧
          text ≠ supportedVersion) ∧
        (fault.code = .schemaValidationFailed → fault.issues ≠ []) := by
  refine ⟨?_, fun config loaded => ?_, fun fault refused => ?_⟩
  · constructor
    · rintro ⟨config, loaded⟩
      obtain ⟨members, shape, accepts, -⟩ := ofJson_eq_ok_iff.1 loaded
      exact ⟨members, shape, accepts⟩
    · rintro ⟨members, rfl, accepts⟩
      exact ⟨_, ofJson_obj accepts⟩
  · obtain ⟨members, shape, accepts, rfl⟩ := ofJson_eq_ok_iff.1 loaded
    exact ⟨members, _, shape, toJson_eq _, member?_members_ofMembers accepts,
      ofJson_toJson_ofMembers accepts⟩
  · have loads := loads_ofJson value
    rw [refused] at loads
    cases loads with
    | notObject other =>
      refine ⟨iff_of_true rfl other, iff_of_false nofun ?_, nofun⟩
      rintro ⟨members, text, shape, -⟩
      exact other members shape
    | @versionMissing members blank =>
      refine ⟨iff_of_false nofun fun other => other members rfl, iff_of_false nofun ?_,
        fun _ => List.cons_ne_nil _ _⟩
      rintro ⟨_, text, ⟨⟩, found, some_char, -⟩
      exact some_char (blank text found)
    | @versionIncompatible members version found some_char other =>
      exact ⟨iff_of_false nofun fun other => other members rfl,
        iff_of_true rfl ⟨members, version, rfl, found, some_char, other⟩, nofun⟩
    | @invalid members first rest version refused =>
      refine ⟨iff_of_false nofun fun other => other members rfl, iff_of_false nofun ?_,
        fun _ => List.cons_ne_nil first rest⟩
      rintro ⟨_, text, ⟨⟩, found, -, other⟩
      exact other (Json.str.inj (Option.some.inj (found.symm.trans version)))

/-- Of two faults the version is told. -/
theorem loaded_or_refused_of_two_faults :
    let value := Json.obj [("output".toList, .null), (versionKey, .str "0.2".toList)]
    ofJson value = .error (.versionIncompatible "0.2".toList) ∧
      ConfigFault.code (.versionIncompatible "0.2".toList) = .versionIncompatible ∧
      ¬∃ config, ofJson value = .ok config := by
  intro value
  have refused : ofJson value = .error (.versionIncompatible "0.2".toList) := by rfl
  obtain ⟨-, -, faults⟩ := loaded_or_refused value
  have version := (faults _ refused).2.1
  refine ⟨refused, version.2 ⟨_, "0.2".toList, rfl, rfl, by decide, by decide⟩, ?_⟩
  rintro ⟨config, loaded⟩
  cases refused.symm.trans loaded

end Config

end MakeRules
