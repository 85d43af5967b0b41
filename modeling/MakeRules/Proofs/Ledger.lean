import MakeRules.Proofs.Json.RoundTrip
import MakeRules.Proofs.Text.Lines
import MakeRules.Run

/-! What is read back from a ledger.

The object that an entry of a run is has all its members in order, none in another's place. It
is written on one line, from which it is read back. So a ledger to which entries are appended
holds one line for each of them, and each line tells what came of its run.
-/

set_option autoImplicit false

namespace MakeRules

open Json

/-- If no key is an index, the members stay in order. -/
theorem Json.indexesFirst_eq_self {members : List (Text × Json)}
    (named : ∀ key ∈ members.map (·.1), index? key = none) :
    indexesFirst members = members := by
  have none (member : Text × Json) (found : member ∈ members) :
      index? member.1 = Option.none :=
    named member.1 (List.mem_map_of_mem found)
  have indexed : members.filter (fun member => (index? member.1).isSome) = [] :=
    List.filter_eq_nil_iff.2 fun member found => by simp [none member found]
  have rest : members.filter (fun member => (index? member.1).isNone) = members :=
    List.filter_eq_self.2 fun member found => by simp [none member found]
  rw [indexesFirst, indexed, rest]
  simp

namespace Ledger

/-- What an entry counts, as it is written. -/
def Counts.toJson (counts : Counts) : Json :=
  .obj [
    ("rules".toList, .nat counts.rules),
    ("linked_products".toList, .nat counts.linkedProducts),
    ("errors".toList, .nat counts.errors),
    ("warnings".toList, .nat counts.warnings)]

namespace Entry

/-- All that an entry says, in order. -/
def members (entry : Entry) : List (Text × Json) :=
  opening ++ entry.run ++ entry.closing

/-- An entry says of its run what a run is stamped with. -/
def IsStamped (entry : Entry) : Prop :=
  ∃ (request : RunRequest) (start : RunStart), entry.run = request.stamp start

variable {entry : Entry} (stamped : entry.IsStamped)

/-- The keys of a ledger entry. -/
def keys : List Text :=
  ["schema_version".toList, "run_id".toList, "started_at".toList, "log_path".toList,
    "output_path".toList, "invocation".toList, "completed_at".toList, "counts".toList,
    "outcome".toList]

include stamped

theorem map_key_members : entry.members.map (·.1) = keys := by
  obtain ⟨request, start, run⟩ := stamped
  rw [members, run]
  rfl

theorem nodup_keys_members : (entry.members.map (·.1)).Nodup := by
  rw [map_key_members stamped]
  decide +kernel

/-- No member of an entry stands in another's place. -/
theorem toJson_eq : entry.toJson = .obj entry.members := by
  have named : ∀ key ∈ entry.members.map (·.1), index? key = none := by
    rw [map_key_members stamped]
    decide +kernel
  calc entry.toJson
      = .obj (indexesFirst (collect entry.members)) := rfl
    _ = .obj (indexesFirst entry.members) := by
      rw [collect_eq_self (nodup_keys_members stamped)]
    _ = .obj entry.members := by rw [indexesFirst_eq_self named]

theorem regular_toJson : Regular entry.toJson := by
  rw [toJson_eq stamped]
  refine ⟨nodup_keys_members stamped, ?_⟩
  obtain ⟨request, start, run⟩ := stamped
  rw [members, run]
  have counts : Regular entry.counts.toJson :=
    regular_object (by simp only [List.map]; decide) (by simp)
  have outcome : Regular (outcome entry.failure) := by
    cases entry.failure with
    | none => exact regular_object (by decide) (by simp)
    | some failure =>
      have error : Regular (.obj [
          ("name".toList, .str failure.name), ("message".toList, .str failure.message)]) :=
        regular_object (by simp only [List.map]; decide) (by simp)
      exact regular_object (by simp only [List.map]; decide)
        (List.forall_mem_cons.2 ⟨regular_str _, List.forall_mem_singleton.2 error⟩)
  exact ⟨trivial, trivial, trivial, trivial, trivial, trivial, trivial, counts, outcome, trivial⟩

theorem lf_not_mem_print_toJson : '\n' ∉ entry.toJson.print :=
  lf_not_mem_print _ (regular_toJson stamped)

theorem member?_counts : member? "counts".toList entry.members = some entry.counts.toJson := by
  obtain ⟨request, start, run⟩ := stamped
  rw [members, run]
  rfl

/-- An entry is read back from its line. -/
theorem parse?_print_toJson : parse? entry.toJson.print = some (.obj entry.members) := by
  rw [parse?_print (regular_toJson stamped), toJson_eq stamped]

end Entry

/-- What the object of an entry tells of a run, however it came out. It tells nothing else but what
it counts, and its outcome. -/
structure TellsRun (object : List (Text × Json)) (request : RunRequest) (start : RunStart)
    (completedAt : Text) : Prop where
  keys : object.map (·.1) = Entry.keys
  version : member? "schema_version".toList object = some (.str "0.1.0".toList)
  runId : member? "run_id".toList object = some (.str start.runId)
  startedAt : member? "started_at".toList object = some (.str start.startedAt)
  logPath : member? "log_path".toList object = some (.str request.logPath)
  outputPath : member? "output_path".toList object = some (.str request.outputPath)
  invocation : member? "invocation".toList object = some (.str request.invocationInEffect)
  completedAt : member? "completed_at".toList object = some (.str completedAt)

/-- The run has succeeded, with so many rules, products, errors and warnings. -/
structure TellsSuccess (object : List (Text × Json)) (request : RunRequest) (start : RunStart)
    (completedAt : Text) (translation : Translation) : Prop
    extends TellsRun object request start completedAt where
  counts : member? "counts".toList object = some (Counts.toJson {
    rules := translation.rules.length
    linkedProducts := translation.linkedProducts.length
    errors := translation.diagnostics.countP (·.severity == .error)
    warnings := translation.diagnostics.countP (·.severity == .warning) })
  outcome : member? "outcome".toList object = some (.obj [("status".toList, .str "success".toList)])

/-- The run has failed, so that there is nothing to count. -/
structure TellsFailure (object : List (Text × Json)) (request : RunRequest) (start : RunStart)
    (completedAt : Text) (name message : Text) : Prop
    extends TellsRun object request start completedAt where
  counts : member? "counts".toList object = some (Counts.toJson ⟨0, 0, 0, 0⟩)
  outcome : member? "outcome".toList object = some (.obj [
    ("status".toList, .str "failure".toList),
    ("error".toList, .obj [("name".toList, .str name), ("message".toList, .str message)])])

section

variable (request : RunRequest) (start : RunStart) (completedAt : Text)

theorem Entry.tellsRun {entry : Entry} (stamped : entry.run = request.stamp start) :
    TellsRun entry.members request start entry.completedAt := by
  constructor <;> rw [members, stamped] <;> rfl

theorem Entry.tellsSuccess (translation : Translation) :
    TellsSuccess (success (request.stamp start) completedAt translation).members request start
      completedAt translation where
  toTellsRun := tellsRun request start rfl
  counts := rfl
  outcome := rfl

theorem Entry.tellsFailure (failure : Failure) :
    TellsFailure (failed (request.stamp start) completedAt failure).members request start
      completedAt failure.name failure.message where
  toTellsRun := tellsRun request start rfl
  counts := rfl
  outcome := rfl

end

/-- A ledger is split into the lines of its entries, with nothing behind the last. -/
theorem splitOn_flatMap_line {entries : List Entry} (stamped : ∀ entry ∈ entries, entry.IsStamped) :
    Text.splitOn '\n' (entries.flatMap (·.line)) = entries.map (·.toJson.print) ++ [[]] := by
  have printed : entries.flatMap (·.line) =
      (entries.map (·.toJson.print)).flatMap (· ++ ['\n']) := by
    rw [List.flatMap_map]
    rfl
  rw [printed, Text.splitOn_flatMap_ended_eq_iff, List.forall_mem_map]
  exact fun entry member => Entry.lf_not_mem_print_toJson (stamped entry member)

end Ledger

end MakeRules
