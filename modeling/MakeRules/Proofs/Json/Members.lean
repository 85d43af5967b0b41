import MakeRules.Json.Parser
import Mathlib.Data.List.Nodup

/-! Members of objects that are read: no two have one key, whatever is repeated in the text. -/

set_option autoImplicit false

namespace MakeRules.Json

theorem text?_eq_some_iff {value : Json} {text : Text} :
    value.text? = some text ↔ value = .str text := by
  cases value <;> simp [text?]

theorem map_key_setMember (key : Text) (value : Json) (members : List (Text × Json)) :
    (setMember key value members).map (·.1) =
      if key ∈ members.map (·.1) then members.map (·.1) else members.map (·.1) ++ [key] := by
  induction members with
  | nil => rfl
  | cons member rest ih =>
    unfold setMember
    split
    · next same => simp [same]
    · next other =>
      rw [List.map_cons, List.map_cons, ih]
      simp only [List.mem_cons, Ne.symm other, false_or]
      split <;> rfl

theorem nodup_keys_setMember {key : Text} {members : List (Text × Json)}
    (distinct : (members.map (·.1)).Nodup) (value : Json) :
    ((setMember key value members).map (·.1)).Nodup := by
  rw [map_key_setMember]
  split
  · exact distinct
  · next fresh =>
    rw [← List.concat_eq_append]
    exact distinct.concat fresh

theorem nodup_keys_collect (pairs : List (Text × Json)) :
    ((collect pairs).map (·.1)).Nodup := by
  suffices kept : ∀ members : List (Text × Json), (members.map (·.1)).Nodup →
      ((pairs.foldl (fun members pair => setMember pair.1 pair.2 members) members).map
        (·.1)).Nodup from kept [] List.nodup_nil
  induction pairs with
  | nil => exact fun _ distinct => distinct
  | cons pair rest ih => exact fun _ distinct => ih _ (nodup_keys_setMember distinct pair.2)

theorem nodup_keys_valueFrom {fuel : Nat} {text rest : Text} {members : List (Text × Json)}
    (reads : valueFrom fuel text = some (.obj members, rest)) : (members.map (·.1)).Nodup := by
  cases fuel with
  | zero => cases reads
  | succ fuel =>
    unfold valueFrom at reads
    split at reads
    · cases reads
    · cases reads
    · cases reads
    · obtain ⟨_, _, same⟩ := Option.map_eq_some_iff.1 reads
      cases same
    · split at reads
      · cases reads
      · obtain ⟨_, _, same⟩ := Option.map_eq_some_iff.1 reads
        cases same
    · split at reads
      · cases reads
        exact List.nodup_nil
      · obtain ⟨⟨pairs, _⟩, _, same⟩ := Option.map_eq_some_iff.1 reads
        cases same
        exact nodup_keys_collect pairs
    · obtain ⟨_, _, same⟩ := Option.map_eq_some_iff.1 reads
      cases same

theorem nodup_keys_parse? {text : Text} {members : List (Text × Json)}
    (reads : parse? text = some (.obj members)) : (members.map (·.1)).Nodup := by
  unfold parse? at reads
  obtain ⟨⟨value, rest⟩, found, ended⟩ := Option.bind_eq_some_iff.1 reads
  dsimp only at ended
  split at ended
  · cases ended
    exact nodup_keys_valueFrom found
  · cases ended

end MakeRules.Json
