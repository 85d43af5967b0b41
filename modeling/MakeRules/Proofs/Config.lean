import MakeRules.Config
import MakeRules.Proofs.Schema
import MakeRules.Proofs.Text.Units

/-! Which objects are configurations, and the target names that are accepted outside one. -/

set_option autoImplicit false

namespace MakeRules

namespace TextRule

theorem accepts_text_iff {value : Json} :
    ({} : TextRule).Accepts value ↔ ∃ text, value = .str text := by
  simp [Accepts]

theorem accepts_nonEmpty_iff {value : Json} :
    { minLength := 1 : TextRule }.Accepts value ↔ ∃ text, value = .str text ∧ text ≠ [] := by
  simp only [Accepts, Nat.one_le_iff_ne_zero, ne_eq, List.length_eq_zero_iff, Option.all_none,
    and_true, Text.chars_eq_nil_iff]

theorem accepts_targetName_iff {value : Json} :
    { pattern := some Schema.targetName : TextRule }.Accepts value ↔
      ∃ name, value = .str name ∧ Schema.targetName.accepts name = true := by
  simp [Accepts]

end TextRule

namespace Config

open Schema

/-- The keys that a configuration may have. -/
def keys : List Text :=
  [versionKey, aggregateTargetKey, invocationKey, ledgerPathKey]

/-- What the members of a configuration are. -/
structure Accepts (members : List (Text × Json)) : Prop where
  known : ∀ member ∈ members, member.1 ∈ keys
  version : Json.member? versionKey members = some (.str supportedVersion)
  target : ∀ value, Json.member? aggregateTargetKey members = some value →
    ∃ name : Text, value = .str name ∧ name ≠ [] ∧ ∀ c ∈ name, isNameChar c = true
  invocation : ∀ value, Json.member? invocationKey members = some value →
    ∃ text, value = .str text
  ledgerPath : ∀ value, Json.member? ledgerPathKey members = some value →
    ∃ text, value = .str text ∧ text ≠ []

/-- With a version that is supported, the schema asks just for what a configuration is. -/
theorem issues_eq_nil_iff_accepts {members : List (Text × Json)}
    (version : Json.member? versionKey members = some (.str supportedVersion)) :
    Schema.config.issues (.obj members) = [] ↔ Accepts members := by
  have rules : Schema.config.members = [(versionKey, { minLength := 1 }),
    (aggregateTargetKey, { pattern := some targetName }), (invocationKey, {}),
    (ledgerPathKey, { minLength := 1 })] := rfl
  have required : Schema.config.required = [versionKey] := rfl
  have closed : Schema.config.isOpen = false := rfl
  have long : supportedVersion ≠ [] := by decide
  rw [Schema.issues_eq_nil_iff]
  constructor
  · rintro ⟨-, known, held⟩
    rw [rules] at known held
    refine ⟨fun member found => ?_, version, fun value found => ?_, fun value found => ?_,
      fun value found => ?_⟩
    · obtain ⟨rule, listed, same⟩ := known closed member found
      rw [← same]
      exact (List.mem_map_of_mem listed : rule.1 ∈ keys)
    · obtain ⟨name, rfl, accepts⟩ :=
        TextRule.accepts_targetName_iff.1 (held (aggregateTargetKey, _) (by simp) value found)
      exact ⟨name, rfl, Pattern.accepts_iff.1 accepts⟩
    · exact TextRule.accepts_text_iff.1 (held (invocationKey, _) (by simp) value found)
    · exact TextRule.accepts_nonEmpty_iff.1 (held (ledgerPathKey, _) (by simp) value found)
  · rintro ⟨known, -, target, invocation, ledgerPath⟩
    refine ⟨?_, fun _ member found => ?_, ?_⟩
    · rw [required]
      simp [version]
    · exact List.mem_map.1 (known member found : member.1 ∈ Schema.config.members.map (·.1))
    · rw [rules]
      simp only [List.forall_mem_cons, List.not_mem_nil, false_implies, implies_true, and_true]
      refine ⟨fun value found => ?_, fun value found => ?_, fun value found => ?_,
        fun value found => ?_⟩
      · obtain rfl := Option.some.inj (version.symm.trans found)
        exact TextRule.accepts_nonEmpty_iff.2 ⟨_, rfl, long⟩
      · obtain ⟨name, rfl, some_char, name_chars⟩ := target value found
        exact TextRule.accepts_targetName_iff.2 ⟨name, rfl, Pattern.accepts_iff.2 ⟨some_char, name_chars⟩⟩
      · exact TextRule.accepts_text_iff.2 (invocation value found)
      · exact TextRule.accepts_nonEmpty_iff.2 (ledgerPath value found)

theorem member?_eq_none {key : Text} {members : List (Text × Json)}
    (absent : ∀ member ∈ members, member.1 ≠ key) : Json.member? key members = none := by
  rw [Json.member?, Option.map_eq_none_iff, List.find?_eq_none]
  exact fun member found same => absent member found (beq_iff_eq.1 same)

/-- With a version that is supported and a target, and with nothing else, all depends on
the target. -/
theorem issues_eq_nil_iff {members : List (Text × Json)} {name : Text}
    (version : Json.member? versionKey members = some (.str supportedVersion))
    (target : Json.member? aggregateTargetKey members = some (.str name))
    (only : ∀ member ∈ members,
      member.1 = versionKey ∨ member.1 = aggregateTargetKey) :
    Schema.config.issues (.obj members) = [] ↔ targetName.accepts name = true := by
  have absent {key : Text} (noVersion : versionKey ≠ key)
      (noTarget : aggregateTargetKey ≠ key) : Json.member? key members = none := by
    refine member?_eq_none fun member found same => ?_
    rcases only member found with isVersion | isTarget
    · exact noVersion (isVersion.symm.trans same)
    · exact noTarget (isTarget.symm.trans same)
  have invocation : Json.member? invocationKey members = none := absent (by decide) (by decide)
  have ledgerPath : Json.member? ledgerPathKey members = none := absent (by decide) (by decide)
  rw [issues_eq_nil_iff_accepts version]
  constructor
  · intro accepted
    obtain ⟨_, ⟨⟩, name_chars⟩ := accepted.target _ target
    exact Pattern.accepts_iff.2 name_chars
  · intro accepts
    refine ⟨fun member found => ?_, version, fun value found => ?_, ?_, ?_⟩
    · rcases only member found with isVersion | isTarget
      · rw [isVersion]
        decide
      · rw [isTarget]
        decide
    · obtain rfl := Option.some.inj (target.symm.trans found)
      exact ⟨name, rfl, Pattern.accepts_iff.1 accepts⟩
    · exact fun value found => nomatch invocation.symm.trans found
    · exact fun value found => nomatch ledgerPath.symm.trans found

theorem issues_aggregateTarget_eq_nil_iff {name : Text} :
    Schema.config.issues { aggregateTarget := some name : Config }.toJson = [] ↔
      targetName.accepts name = true :=
  @issues_eq_nil_iff [(versionKey, .str supportedVersion), (aggregateTargetKey, .str name)] name
    rfl rfl (by simp)

/-- A name given outside a configuration is accepted as it stands if it is a target name. -/
theorem requireTargetName_eq_ok_iff {name accepted : Text} :
    requireTargetName name = .ok accepted ↔ accepted = name ∧ targetName.accepts name = true := by
  rw [← issues_aggregateTarget_eq_nil_iff, requireTargetName]
  split
  · next none => simp [none, eq_comm]
  · next some => simp [some]

theorem isNameChar_of_requireTargetName {name accepted : Text}
    (accepts : requireTargetName name = .ok accepted) {c : Char} (member : c ∈ name) :
    isNameChar c = true :=
  (Pattern.accepts_iff.1 (requireTargetName_eq_ok_iff.1 accepts).2).2 c member

theorem exists_requireTargetName_eq_ok_iff (name : Text) :
    (∃ accepted, requireTargetName name = .ok accepted) ↔ targetName.accepts name = true := by
  simp only [requireTargetName_eq_ok_iff, exists_eq_left]

end Config

end MakeRules
