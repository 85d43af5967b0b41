import MakeRules.Proofs.Text.Lines
import MakeRules.Schema

/-! What a schema accepts: the objects with which it has no issue. -/

set_option autoImplicit false

namespace MakeRules

theorem Pattern.accepts_iff {pattern : Pattern} {text : Text} :
    pattern.accepts text = true ↔ text ≠ [] ∧ ∀ c ∈ text, pattern.allows c = true := by
  simp [accepts]

/-- A text that is accepted stays so when it is trimmed, if anything is left. -/
theorem Pattern.accepts_of_nonBlank? {pattern : Pattern} {text trimmed : Text}
    (accepts : pattern.accepts text = true) (left : text.nonBlank? = some trimmed) :
    pattern.accepts trimmed = true := by
  unfold Text.nonBlank? at left
  split at left
  · cases left
  · next some_char =>
    cases left
    refine accepts_iff.2 ⟨by simpa using some_char, fun c member => ?_⟩
    exact (accepts_iff.1 accepts).2 c (Text.mem_of_mem_trim member)

namespace TextRule

/-- A value that is held to a rule must be a string, and its text long enough and matched. -/
def Accepts (rule : TextRule) (value : Json) : Prop :=
  ∃ text, value = .str text ∧ rule.minLength ≤ text.chars.length ∧
    rule.pattern.all (·.accepts text) = true

theorem issues_eq_nil_iff {rule : TextRule} {path text : Text} :
    rule.issues path text = [] ↔
      rule.minLength ≤ text.chars.length ∧ rule.pattern.all (·.accepts text) = true := by
  unfold issues
  rw [List.append_eq_nil_iff, ← Nat.not_lt]
  apply and_congr
  · split
    · next short => exact iff_of_false (List.cons_ne_nil _ _) (not_not_intro short)
    · next long => exact iff_of_true rfl long
  · cases rule.pattern with
    | none => exact iff_of_true rfl rfl
    | some pattern =>
      change (if pattern.accepts text = true then _ else _) = [] ↔ pattern.accepts text = true
      split
      · next accepts => exact iff_of_true rfl accepts
      · next refuses => exact iff_of_false (List.cons_ne_nil _ _) refuses

theorem memberIssues_eq_nil_iff {rule : TextRule} {path : Text} {value : Json} :
    rule.memberIssues path value = [] ↔ rule.Accepts value := by
  cases value with
  | str text =>
    rw [memberIssues, issues_eq_nil_iff]
    constructor
    · exact fun accepted => ⟨text, rfl, accepted⟩
    · rintro ⟨_, ⟨⟩, accepted⟩
      exact accepted
  | _ => exact iff_of_false (List.cons_ne_nil _ _) nofun

end TextRule

namespace Schema

/-- What a schema asks of the members of an object. -/
structure Accepts (schema : Schema) (members : List (Text × Json)) : Prop where
  present : ∀ key ∈ schema.required, Json.member? key members ≠ none
  known : schema.isOpen = false →
    ∀ member ∈ members, ∃ rule ∈ schema.members, rule.1 = member.1
  held : ∀ rule ∈ schema.members, ∀ value, Json.member? rule.1 members = some value →
    rule.2.Accepts value

variable {schema : Schema} {members : List (Text × Json)}

theorem missing_eq_nil_iff :
    schema.missing members = [] ↔ ∀ key ∈ schema.required, Json.member? key members ≠ none := by
  simp [missing]

theorem unknown_eq_nil_iff : schema.unknown members = [] ↔ (schema.isOpen = false →
    ∀ member ∈ members, ∃ rule ∈ schema.members, rule.1 = member.1) := by
  unfold unknown
  split
  · next isOpen => simp [isOpen]
  · next closed => simp [Bool.eq_false_iff.2 closed]

theorem wrong_eq_nil_iff : schema.wrong members = [] ↔ ∀ rule ∈ schema.members,
    ∀ value, Json.member? rule.1 members = some value → rule.2.Accepts value := by
  rw [wrong, List.flatMap_eq_nil_iff]
  refine forall₂_congr fun rule _ => ?_
  dsimp only
  split
  · next value found => simp [found, TextRule.memberIssues_eq_nil_iff]
  · next none => simp [none]

theorem issues_eq_nil_iff : schema.issues (.obj members) = [] ↔ schema.Accepts members := by
  rw [issues, List.append_eq_nil_iff, List.append_eq_nil_iff, missing_eq_nil_iff,
    unknown_eq_nil_iff, wrong_eq_nil_iff, and_assoc]
  exact ⟨fun ⟨present, known, held⟩ => ⟨present, known, held⟩,
    fun ⟨present, known, held⟩ => ⟨present, known, held⟩⟩

end Schema

end MakeRules
