import MakeRules.Proofs.Step.Reading
import MakeRules.Step.Dispatch

/-! How a log falls into dispatched records and the records of their steps.

Each dispatched record comes with the records that it takes, which stand directly
behind it, and these pieces make up the log.
-/

set_option autoImplicit false

namespace MakeRules

/-- The dispatched record and the records of its step. -/
def Dispatch.records (dispatch : Dispatch) : Log :=
  dispatch.record :: dispatch.outcome.taken

theorem taken_classify_isPrefix (record : Record) (behind : Log) :
    (classify record behind).taken <+: behind := by
  rw [Outcome.taken_eq]
  cases taken : (classify record behind).site? with
  | none => exact List.nil_prefix
  | some site =>
    obtain ⟨kind, _, stands⟩ := isBehind_of_site?_classify taken
    exact stands.shown

theorem not_isStepMarker_of_mem_taken {record other : Record} {behind : Log}
    (member : other ∈ (classify record behind).taken) : isStepMarker other.text = false := by
  rw [Outcome.taken_eq] at member
  cases taken : (classify record behind).site? with
  | none => simp [taken] at member
  | some site =>
    obtain ⟨kind, _, stands⟩ := isBehind_of_site?_classify taken
    simp only [taken, Option.map_some, Option.getD_some] at member
    exact stands.not_isStepMarker member

namespace Log

@[elab_as_elim]
theorem dispatch_induction {motive : Log → Prop} (nil : motive [])
    (cons : ∀ record rest, motive (rest.drop (classify record rest).taken.length) →
      motive (record :: rest)) (log : Log) : motive log := by
  induction length : log.length using Nat.strong_induction_on generalizing log with
  | _ count ih =>
    cases log with
    | nil => exact nil
    | cons record rest =>
      refine cons record rest (ih _ ?_ _ rfl)
      simp only [List.length_cons, List.length_drop] at length ⊢
      omega

/-- The pieces of a log make it up. -/
theorem flatMap_records_dispatch (log : Log) : log.dispatch.flatMap Dispatch.records = log := by
  induction log using dispatch_induction with
  | nil => rfl
  | cons record rest ih =>
    rw [dispatch_cons, List.flatMap_cons, ih, Dispatch.records, List.cons_append]
    exact congrArg (record :: ·) (List.prefix_iff_eq_append.1 (taken_classify_isPrefix record rest))

/-- Each dispatch is made with the records behind it in view. -/
theorem exists_behind_of_mem_dispatch {log : Log} {dispatch : Dispatch}
    (member : dispatch ∈ log.dispatch) :
    ∃ behind, dispatch.outcome = classify dispatch.record behind ∧
      dispatch.record :: behind <:+ log := by
  induction log using dispatch_induction with
  | nil => simp at member
  | cons record rest ih =>
    rw [dispatch_cons] at member
    rcases List.mem_cons.1 member with rfl | later
    · exact ⟨rest, rfl, List.suffix_rfl⟩
    · obtain ⟨behind, same, ends⟩ := ih later
      exact ⟨behind, same, (ends.trans (List.drop_suffix ..)).trans (List.suffix_cons ..)⟩

/-- The records of a dispatch stand together in the log. -/
theorem records_isInfix {log : Log} {dispatch : Dispatch} (member : dispatch ∈ log.dispatch) :
    dispatch.records <:+: log := by
  obtain ⟨behind, same, ends⟩ := exists_behind_of_mem_dispatch member
  have taken := taken_classify_isPrefix dispatch.record behind
  rw [← same] at taken
  exact ((List.prefix_cons_inj _).2 taken).isInfix.trans ends.isInfix

theorem map_record_dispatch_sublist (log : Log) : (log.dispatch.map (·.record)).Sublist log := by
  induction log using dispatch_induction with
  | nil => exact List.Sublist.slnil
  | cons record rest ih =>
    rw [dispatch_cons, List.map_cons]
    exact (ih.trans (List.drop_sublist ..)).cons_cons record

theorem exists_dispatch_of_mem {log : Log} {record : Record} (member : record ∈ log) :
    ∃ dispatch ∈ log.dispatch, record = dispatch.record ∨ record ∈ dispatch.outcome.taken := by
  rw [← flatMap_records_dispatch log] at member
  obtain ⟨dispatch, dispatched, among⟩ := List.mem_flatMap.1 member
  exact ⟨dispatch, dispatched, List.mem_cons.1 among⟩

end Log

end MakeRules
