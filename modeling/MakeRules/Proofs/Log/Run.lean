import MakeRules.Proofs.Log.Dispatch
import MakeRules.Proofs.Log.Record
import MakeRules.Proofs.Step.Reader

/-! The loop that reads a log through a cursor.

Blank records are passed over, and each record with a text is handed to the reading
of steps, which moves the cursor and may set it back. The loop ends, in one way, and
dispatches the records that the log falls into.
-/

set_option autoImplicit false

namespace MakeRules

/-- What the loop dispatches from a position to the end of the log. -/
inductive Cursor.Runs : Cursor → List Dispatch → Prop where
  | done {cursor behind : Cursor} (next : cursor.next = (none, behind)) : Runs cursor []
  | blank {cursor behind : Cursor} {record : Record} {rest : List Dispatch}
      (next : cursor.next = (some record, behind)) (blank : record.isBlank = true)
      (later : Runs behind rest) : Runs cursor rest
  | dispatch {cursor behind after : Cursor} {record : Record} {outcome : Outcome}
      {rest : List Dispatch} (next : cursor.next = (some record, behind))
      (text : record.isBlank = false) (read : behind.readOutcome record = (outcome, after))
      (later : Runs after rest) : Runs cursor (⟨record, outcome⟩ :: rest)

theorem classify_of_isBlank {record : Record} (blank : record.isBlank = true) (behind : Log) :
    classify record behind = .unclaimed := by
  have empty : record.text = [] := List.isEmpty_iff.1 blank
  have unmarked : StepKind.ofText? record.text = none := by rw [empty]; decide
  simp [classify, unmarked]

namespace Log

/-- The dispatches of the records with a text. -/
def run (log : Log) : List Dispatch :=
  log.dispatch.filter fun dispatch => !dispatch.record.isBlank

theorem run_cons_of_isBlank {record : Record} (blank : record.isBlank = true) (rest : Log) :
    run (record :: rest) = run rest := by
  simp [run, dispatch_cons, classify_of_isBlank blank, blank, Outcome.taken]

theorem run_cons {record : Record} (text : record.isBlank = false) (rest : Log) :
    run (record :: rest) =
      ⟨record, classify record rest⟩ :: run (rest.drop (classify record rest).taken.length) := by
  simp [run, dispatch_cons, text]

end Log

namespace Cursor

theorem ahead_of_next {cursor behind : Cursor} {record : Record}
    (next : cursor.next = (some record, behind)) :
    behind = cursor.skip 1 ∧ cursor.ahead = record :: behind.ahead := by
  obtain ⟨head, rfl⟩ := Prod.mk.inj next
  obtain ⟨rest, ahead⟩ := List.head?_eq_some_iff.1 head
  exact ⟨rfl, by simp [ahead]⟩

theorem eq_run_of_runs {cursor : Cursor} {run : List Dispatch} (runs : cursor.Runs run) :
    run = cursor.ahead.run := by
  induction runs with
  | @done cursor behind next =>
    have ended : cursor.ahead = [] := List.head?_eq_none_iff.1 (Prod.mk.inj next).1
    simp [ended, Log.run]
  | blank next blank _ ih =>
    rw [(ahead_of_next next).2, Log.run_cons_of_isBlank blank, ih]
  | dispatch next text read _ ih =>
    rw [readOutcome_eq] at read
    obtain ⟨rfl, rfl⟩ := Prod.mk.inj read
    rw [(ahead_of_next next).2, Log.run_cons text, ih, ahead_skip]

theorem runs_run (cursor : Cursor) : cursor.Runs cursor.ahead.run := by
  induction count : cursor.ahead.length using Nat.strong_induction_on generalizing cursor with
  | _ count ih =>
    cases ahead : cursor.ahead with
    | nil => exact .done (by rw [next, ahead]; rfl)
    | cons record rest =>
      have next : cursor.next = (some record, cursor.skip 1) := by rw [next, ahead]; rfl
      have behind : (cursor.skip 1).ahead = rest := by simp [ahead]
      rw [ahead, List.length_cons] at count
      by_cases blank : record.isBlank = true
      · rw [Log.run_cons_of_isBlank blank]
        apply Runs.blank next blank
        rw [← behind]
        exact ih _ (by rw [behind]; omega) _ rfl
      · rw [Bool.not_eq_true] at blank
        have read := readOutcome_eq (cursor.skip 1) record
        rw [behind] at read
        rw [Log.run_cons blank]
        apply Runs.dispatch next blank read
        have later := ih _ ?_ ((cursor.skip 1).skip (classify record rest).taken.length) rfl
        · rwa [ahead_skip, behind] at later
        · simp only [ahead_skip, List.length_drop, ahead, List.length_cons]
          omega

/-- The loop ends, and in one way. -/
theorem runs_iff {cursor : Cursor} {run : List Dispatch} :
    cursor.Runs run ↔ run = cursor.ahead.run :=
  ⟨eq_run_of_runs, fun same => same ▸ runs_run cursor⟩

end Cursor

namespace Log

theorem map_record_run_sublist (log : Log) : (log.run.map (·.record)).Sublist log :=
  (List.filter_sublist.map _).trans (map_record_dispatch_sublist log)

theorem length_run_le (log : Log) : log.run.length ≤ log.length := by
  simpa using (map_record_run_sublist log).length_le

theorem mem_run_iff {log : Log} {dispatch : Dispatch} :
    dispatch ∈ log.run ↔ dispatch ∈ log.dispatch ∧ dispatch.record.isBlank = false := by
  simp [run]

theorem not_isStepMarker_of_mem_taken_run {log : Log} {dispatch : Dispatch}
    (member : dispatch ∈ log.run) {record : Record} (taken : record ∈ dispatch.outcome.taken) :
    isStepMarker record.text = false := by
  obtain ⟨behind, same, _⟩ := exists_behind_of_mem_dispatch (mem_run_iff.1 member).1
  rw [same] at taken
  exact not_isStepMarker_of_mem_taken taken

/-- No step takes a marker, so each is dispatched. -/
theorem mem_map_record_run_of_isStepMarker {log : Log} {record : Record} (member : record ∈ log)
    (marks : isStepMarker record.text = true) : record ∈ log.run.map (·.record) := by
  obtain ⟨dispatch, dispatched, same | taken⟩ := exists_dispatch_of_mem member
  · subst same
    refine List.mem_map_of_mem (mem_run_iff.2 ⟨dispatched, ?_⟩)
    simpa [Record.isBlank] using ne_nil_of_isStepMarker marks
  · obtain ⟨behind, same, _⟩ := exists_behind_of_mem_dispatch dispatched
    rw [same] at taken
    cases marks.symm.trans (not_isStepMarker_of_mem_taken taken)

end Log

end MakeRules
