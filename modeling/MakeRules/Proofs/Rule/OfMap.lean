import MakeRules.Proofs.Escape.Decoding
import MakeRules.Proofs.OutputFileMap
import MakeRules.Proofs.Rule.Table
import MakeRules.Rule.OfStep

/-! The rules of a Swift driver step.

A map may list one object for several sources, and an object may have a rule before the step. The
first rule of a target is kept and the sources ascend, so the least source of an object gives its
rule.
-/

set_option autoImplicit false

namespace MakeRules

namespace OutputFileMap

/-- The entries of a map that get rules: one for each object whose target has none, that of the
object's least source. -/
structure Picks (table : RuleTable) (members : List (Text × Json))
    (entries : List SourceObject) : Prop where
  ascending : entries.Pairwise fun first second => first.source.units < second.source.units
  once : (entries.map (·.object)).Nodup
  mem_objects_iff : ∀ object, object ∈ entries.map (·.object) ↔
    (∃ source, Lists members ⟨source, object⟩) ∧ table.has (Escape.makeTarget object) = false
  listed : ∀ files ∈ entries, Lists members files
  least : ∀ files ∈ entries, ∀ other, Lists members ⟨other, files.object⟩ →
    files.source.units ≤ other.units

def picked (table : RuleTable) (members : List (Text × Json)) : List SourceObject :=
  ((entries members).filter fun files => !table.has (Escape.makeTarget files.object)).eraseDupsBy
    fun first second => first.object == second.object

variable {table : RuleTable} {members : List (Text × Json)}

theorem Picks.mem_iff {entries : List SourceObject} (picks : Picks table members entries)
    {files : SourceObject} :
    files ∈ entries ↔
      Lists members files ∧
        (∀ other, Lists members ⟨other, files.object⟩ → files.source.units ≤ other.units) ∧
        table.has (Escape.makeTarget files.object) = false := by
  constructor
  · intro member
    have named : files.object ∈ entries.map (·.object) := List.mem_map.2 ⟨_, member, rfl⟩
    exact ⟨picks.listed _ member, picks.least _ member,
      ((picks.mem_objects_iff files.object).1 named).2⟩
  · rintro ⟨listed, least, untaken⟩
    obtain ⟨source, object⟩ := files
    obtain ⟨⟨other, _⟩, member, rfl⟩ :=
      List.mem_map.1 ((picks.mem_objects_iff object).2 ⟨⟨source, listed⟩, untaken⟩)
    have same : source = other := Text.units_injective
      (List.le_antisymm (least _ (picks.listed _ member)) (picks.least _ member _ listed))
    rwa [same]

theorem picks_picked (distinct : (members.map (·.1)).Nodup) :
    Picks table members (picked table members) := by
  let untaken (files : SourceObject) : Bool := !table.has (Escape.makeTarget files.object)
  have ascending : ((entries members).filter untaken).Pairwise fun first second =>
      first.source.units < second.source.units :=
    (entries_ascending distinct).sublist List.filter_sublist
  have part : (picked table members).Sublist ((entries members).filter untaken) :=
    eraseDupsBy_sublist ..
  have objects : (picked table members).map (·.object) =
      (((entries members).filter untaken).map (·.object)).eraseDups :=
    (map_eraseDupsBy (fun _ _ => rfl) _).symm
  have listed : ∀ files ∈ picked table members, Lists members files :=
    fun _ member => mem_entries_iff.1 (List.mem_of_mem_filter (part.subset member))
  refine ⟨ascending.sublist part, objects ▸ nodup_eraseDups _, fun object => ?_, listed, ?_⟩
  · rw [objects, List.mem_eraseDups, List.mem_map]
    constructor
    · rintro ⟨⟨source, _⟩, kept, rfl⟩
      obtain ⟨member, taken⟩ := List.mem_filter.1 kept
      exact ⟨⟨source, mem_entries_iff.1 member⟩, by simpa [untaken] using taken⟩
    · rintro ⟨⟨source, listed⟩, taken⟩
      exact ⟨⟨source, object⟩,
        List.mem_filter.2 ⟨mem_entries_iff.2 listed, by simpa [untaken] using taken⟩, rfl⟩
  · rintro ⟨source, object⟩ member other also
    have taken : untaken ⟨source, object⟩ = true := List.of_mem_filter (part.subset member)
    have behind : ⟨other, object⟩ ∈ (entries members).filter untaken :=
      List.mem_filter.2 ⟨mem_entries_iff.2 also, taken⟩
    rcases eq_or_rel_of_mem_eraseDupsBy ascending member behind rfl with same | before
    · cases same
      exact List.le_refl _
    · exact List.le_of_lt before

end OutputFileMap

theorem Rule.sameTarget_ofObject (change : DirectoryChange) (command : Text)
    (first second : SourceObject) :
    (ofObject change command first).sameTarget (ofObject change command second) =
      (first.object == second.object) :=
  Escape.makeTarget_beq_makeTarget ..

namespace Step

/-- A driver step adds one rule for each object of its map that has none: behind the object's
least source, with the whole invocation, and in the order of the sources. What stands in the table
stays. -/
theorem rules_of_driver_step (view : FileView) (file : Text) (table : RuleTable) (site : Site)
    (invocation path : Text) {members : List (Text × Json)}
    (holds : OutputFileMap.Holds view (view.resolve site.change.directory path) members) :
    let added := (swiftDriver site invocation (some path)).contribute view file table
    added.diagnostics = [] ∧ added.table.rules = table.rules ++ added.rules ∧
      added.table.linkedProducts = table.linkedProducts ∧
        ∃ entries, OutputFileMap.Picks table members entries ∧
          added.rules = entries.map fun files => {
            target := Escape.makeTarget files.object
            prerequisites := [Escape.makeTarget files.source]
            workingDir := site.change.directory
            recipe := site.change.recipePrefix ++ " && ".toList ++ Escape.dollar invocation ++
              " && touch ".toList ++ Escape.recipePath files.object } := by
  intro added
  have whole : added = .ofRules table
      ((OutputFileMap.entries members).map (Rule.ofObject site.change invocation)) := by
    simp only [added, contribute, OutputFileMap.read_of_holds _ _ holds]
  rw [whole]
  refine ⟨rfl, table.rules_registerAll _, table.linkedProducts_registerAll _,
    OutputFileMap.picked table members, OutputFileMap.picks_picked holds.nodup_keys, ?_⟩
  exact RuleTable.newRules_map (fun _ _ => Rule.sameTarget_ofObject ..) table _

/-- Of two sources with one object the lesser gives the rule, and an object with a rule gets no
other. -/
theorem rules_of_driver_step_of_shared_object :
    let outputs (object : String) : Json := .obj [("object".toList, .str object.toList)]
    let members := [("b.swift".toList, outputs "a.o"),
      ("a.swift".toList, outputs "a.o"), ("c.swift".toList, outputs "c.o")]
    let view : FileView := ⟨"/".toList, fun _ => .ok
      ("\x7b\"b.swift\":\x7b\"object\":\"a.o\"\x7d,\"a.swift\":\x7b\"object\":\"a.o\"\x7d," ++
        "\"c.swift\":\x7b\"object\":\"c.o\"\x7d\x7d").toList⟩
    let site : Site := {
      marker := { text := [], line := .ofNat 1 }
      change := { record := { text := [], line := .ofNat 2 }, directory := "/d".toList }
      command := { text := [], line := .ofNat 3 } }
    let table := RuleTable.register {} {
      target := "c.o".toList, prerequisites := [], workingDir := [], recipe := [] }
    let added := (swiftDriver site "swiftc".toList (some "map".toList)).contribute view [] table
    OutputFileMap.Holds view (view.resolve site.change.directory "map".toList) members ∧
      added.rules = [{
        target := "a.o".toList
        prerequisites := ["a.swift".toList]
        workingDir := "/d".toList
        recipe := "cd /d && swiftc && touch a.o".toList }] := by
  intro outputs members view site table added
  have holds : OutputFileMap.Holds view (view.resolve site.change.directory "map".toList) members :=
    ⟨_, rfl, by decide +kernel⟩
  obtain ⟨_, _, _, entries, picks, rules⟩ :=
    rules_of_driver_step view [] table site "swiftc".toList "map".toList holds
  let files (source object : String) : SourceObject := ⟨source.toList, object.toList⟩
  let all := [files "b.swift" "a.o", files "a.swift" "a.o", files "c.swift" "c.o"]
  have listed : OutputFileMap.listed members = all := by decide +kernel
  have least : entries = [files "a.swift" "a.o"] := by
    apply OutputFileMap.eq_of_mem_iff_of_ascending picks.ascending (List.pairwise_singleton ..)
    intro entry
    simp only [picks.mem_iff, ← OutputFileMap.mem_listed_iff, listed, List.mem_singleton]
    constructor
    · rintro ⟨member, least, untaken⟩
      rcases List.mem_cons.1 member with same | member
      · cases same
        exact absurd (least "a.swift".toList (by simp [all, files])) (by decide)
      rcases List.mem_cons.1 member with same | member
      · exact same
      cases List.mem_singleton.1 member
      exact absurd untaken (by decide +kernel)
    · intro same
      cases same
      have before : ∀ entry ∈ all, entry.object = "a.o".toList →
          Text.units "a.swift".toList ≤ entry.source.units := by
        decide +kernel
      exact ⟨by simp [all], fun _ member => before _ member rfl, by decide +kernel⟩
  rw [least] at rules
  exact ⟨holds, rules⟩

end Step

end MakeRules
