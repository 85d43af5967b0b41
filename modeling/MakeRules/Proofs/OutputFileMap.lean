import MakeRules.OutputFileMap
import MakeRules.Proofs.Json.Members
import Mathlib.Data.List.Sort

/-! What an output file map lists.

The members that list an object for a Swift source are sorted by the units of their keys. No two
members have one key, so nothing else of the object has a say in the list, neither the order of its
members nor what else they hold.
-/

set_option autoImplicit false

namespace MakeRules.OutputFileMap

/-- A member whose key is that of a Swift source, and which is an object with a text for `object`. -/
inductive Lists (members : List (Text × Json)) : SourceObject → Prop where
  | entry {source object : Text} {outputs : List (Text × Json)}
      (swift : ".swift".toList <:+ source) (member : (source, .obj outputs) ∈ members)
      (named : Json.member? "object".toList outputs = some (.str object))
      (some_char : object ≠ []) : Lists members ⟨source, object⟩

/-- The file at a path holds an object with some members. -/
def Holds (view : FileView) (path : Text) (members : List (Text × Json)) : Prop :=
  ∃ text, view.read path = .ok text ∧ Json.parse? text = some (.obj members)

/-- What members list, in their order. -/
def listed (members : List (Text × Json)) : List SourceObject :=
  members.filterMap fun (key, value) => entry? key value

theorem entry?_eq_some_iff {key : Text} {value : Json} {files : SourceObject} :
    entry? key value = some files ↔ files.source = key ∧ Lists [(key, value)] files := by
  constructor
  · intro reads
    unfold entry? at reads
    split at reads
    · next outputs =>
      split at reads
      · next reading =>
        obtain ⟨value, named, text⟩ := Option.bind_eq_some_iff.1 reading
        obtain rfl := Json.text?_eq_some_iff.1 text
        split at reads
        · next kept =>
          obtain rfl := Option.some.inj reads
          obtain ⟨swift, some_char⟩ := Bool.and_eq_true_iff.1 kept
          rw [Bool.not_eq_true', List.isEmpty_eq_false_iff] at some_char
          exact ⟨rfl, .entry (List.isSuffixOf_iff_suffix.1 swift) List.mem_cons_self named some_char⟩
        · cases reads
      · cases reads
    · cases reads
  · rintro ⟨rfl, listed⟩
    cases listed with
    | entry swift member named some_char =>
      cases List.mem_singleton.1 member
      simp only [named, entry?, Option.bind_some, Json.text?, List.isSuffixOf_iff_suffix.2 swift,
        List.isEmpty_eq_false_iff.2 some_char, Bool.not_false, Bool.and_self, if_true]

section

variable {members : List (Text × Json)} {files : SourceObject}

/-- Whether a member is listed depends on that member alone. -/
theorem lists_iff_exists_member :
    Lists members files ↔
      ∃ value, (files.source, value) ∈ members ∧ Lists [(files.source, value)] files := by
  constructor
  · rintro ⟨swift, member, named, some_char⟩
    exact ⟨_, member, .entry swift List.mem_cons_self named some_char⟩
  · rintro ⟨value, member, listed⟩
    cases listed with
    | entry swift own named some_char =>
      cases List.mem_singleton.1 own
      exact .entry swift member named some_char

theorem mem_listed_iff : files ∈ listed members ↔ Lists members files := by
  rw [lists_iff_exists_member, listed, List.mem_filterMap]
  constructor
  · rintro ⟨⟨key, value⟩, member, reads⟩
    obtain ⟨rfl, listed⟩ := entry?_eq_some_iff.1 reads
    exact ⟨value, member, listed⟩
  · rintro ⟨value, member, listed⟩
    exact ⟨(files.source, value), member, entry?_eq_some_iff.2 ⟨rfl, listed⟩⟩

theorem mem_entries_iff : files ∈ entries members ↔ Lists members files := by
  rw [entries, ← listed, mem_listed_iff, lists_iff_exists_member, lists_iff_exists_member]
  simp only [List.mem_mergeSort]

theorem entries_ascending (distinct : (members.map (·.1)).Nodup) :
    (entries members).Pairwise fun first second => first.source.units < second.source.units := by
  let before (left right : Text × Json) : Bool := decide (left.1.units ≤ right.1.units)
  have transitive : ∀ first second third, before first second = true →
      before second third = true → before first third = true := by
    intro _ _ _ first second
    exact decide_eq_true (List.le_trans (of_decide_eq_true first) (of_decide_eq_true second))
  have total : ∀ left right, (before left right || before right left) = true := by
    intro left right
    simpa [before] using List.le_total left.1.units right.1.units
  have sorted : (members.mergeSort before).Pairwise fun left right =>
      left.1.units ≤ right.1.units :=
    (List.pairwise_mergeSort transitive total members).imp of_decide_eq_true
  have different : (members.mergeSort before).Pairwise fun left right => left.1 ≠ right.1 := by
    have keys := ((List.mergeSort_perm members before).map (·.1)).nodup_iff.2 distinct
    exact List.pairwise_map.1 keys
  rw [entries, List.pairwise_filterMap]
  apply (sorted.and different).imp
  rintro ⟨left, _⟩ ⟨right, _⟩ ⟨least, other⟩ first reads second reads'
  -- what is kept of a member has its key
  obtain ⟨rfl, -⟩ := entry?_eq_some_iff.1 reads
  obtain ⟨rfl, -⟩ := entry?_eq_some_iff.1 reads'
  exact Std.lt_of_le_of_ne least fun same => other (Text.units_injective same)

/-- Ascending entries are given by what is among them. -/
theorem eq_of_mem_iff_of_ascending {first second : List SourceObject}
    (ascending : first.Pairwise fun left right => left.source.units < right.source.units)
    (ascending' : second.Pairwise fun left right => left.source.units < right.source.units)
    (same : ∀ files, files ∈ first ↔ files ∈ second) : first = second := by
  have irrefl : Std.Irrefl fun left right : SourceObject =>
      left.source.units < right.source.units :=
    ⟨fun files => List.lt_irrefl files.source.units⟩
  have antisymm : Std.Antisymm fun left right : SourceObject =>
      left.source.units < right.source.units :=
    ⟨fun _ _ least greatest => absurd greatest (List.lt_asymm least)⟩
  exact ascending.eq_of_mem_iff ascending' same

end

/-- An object is accepted as a map, and any other value is refused for the first issue that it has
with the schema of maps. -/
theorem ofJson_eq_error_iff {path : Text} {value : Json} {fault : Fault} :
    ofJson path value = .error fault ↔
      ∃ issue rest, Schema.outputFileMap.issues value = issue :: rest ∧
        fault = .notMapping path issue := by
  cases value with
  | obj members =>
    have none : Schema.outputFileMap.issues (.obj members) = [] := rfl
    simp [ofJson, none]
  | _ => simp [ofJson, Schema.issues, eq_comm]

variable (view : FileView) (path : Text)

theorem read_of_holds {members : List (Text × Json)} (holds : Holds view path members) :
    read view path = .ok (entries members) := by
  obtain ⟨text, found, parses⟩ := holds
  simp only [read, found, parses, ofJson]

variable {view path}

theorem Holds.nodup_keys {members : List (Text × Json)} (holds : Holds view path members) :
    (members.map (·.1)).Nodup := by
  obtain ⟨text, _, parses⟩ := holds
  exact Json.nodup_keys_parse? parses

variable (view path)

/-- A map lists the object of each Swift source that has one, in the order of the sources' units,
and nothing else has a say in it. A file that cannot be read and one that holds no object are
refused, each with a code of its own. -/
theorem reads_what_is_listed :
    (∀ reason, view.read path = .error reason →
        ∃ fault, read view path = .error fault ∧ fault.code = .outputFileMapUnreadable) ∧
      (∀ text, view.read path = .ok text → (∀ members, Json.parse? text ≠ some (.obj members)) →
        ∃ fault, read view path = .error fault ∧ fault.code = .outputFileMapInvalid) ∧
      ∀ members, Holds view path members →
        (members.map (·.1)).Nodup ∧
          (∃ entries : List SourceObject, read view path = .ok entries ∧
            (entries.Pairwise fun first second => first.source.units < second.source.units) ∧
              ∀ files, files ∈ entries ↔ Lists members files) ∧
          ∀ otherView otherPath others, Holds otherView otherPath others →
            (∀ files, Lists members files ↔ Lists others files) →
              read otherView otherPath = read view path := by
  refine ⟨fun reason fails => ?_, fun text found other => ?_, fun members holds => ?_⟩
  · exact ⟨.unreadable path reason, by rw [read, fails], rfl⟩
  · cases parses : Json.parse? text with
    | none => exact ⟨.notJson path, by simp only [read, found, parses], rfl⟩
    | some value =>
      obtain ⟨issue, rest, issues⟩ :
          ∃ issue rest, Schema.outputFileMap.issues value = issue :: rest := by
        cases value with
        | obj members => exact absurd parses (other members)
        | _ => exact ⟨_, _, rfl⟩
      have refused : ofJson path value = .error (.notMapping path issue) :=
        ofJson_eq_error_iff.2 ⟨issue, rest, issues, rfl⟩
      exact ⟨.notMapping path issue, by simp only [read, found, parses, refused], rfl⟩
  · have ascending := entries_ascending holds.nodup_keys
    refine ⟨holds.nodup_keys, ⟨entries members, read_of_holds view path holds, ascending,
      fun _ => mem_entries_iff⟩, fun otherView otherPath others otherHolds same => ?_⟩
    have listed : entries others = entries members := by
      apply eq_of_mem_iff_of_ascending (entries_ascending otherHolds.nodup_keys) ascending
      intro files
      rw [mem_entries_iff, mem_entries_iff, same]
    rw [read_of_holds view path holds, read_of_holds otherView otherPath otherHolds, listed]

end MakeRules.OutputFileMap
