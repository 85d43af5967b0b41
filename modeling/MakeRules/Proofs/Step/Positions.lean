import MakeRules.Proofs.Log.Record
import MakeRules.Proofs.Step.Reader

/-! Where the reading of a step leaves the cursor.

A position is the number of records before it, so a cursor that stands behind the marker on line `m`
stands at position `m`, and the record there is that of line `m + 1`. A step that is read, or whose
files are at odds, takes the records up to its command; any other reading moves nothing.
-/

set_option autoImplicit false

namespace MakeRules

/-- A directory change and a command that stand at two positions of a log, as a kind of step asks
for them. -/
structure Site.StandsAt (kind : StepKind) (log : Log) (start place : Nat) (site : Site) : Prop where
  change : log[start]? = some site.change.record
  directory : DirectoryChange.ofRecord? site.change.record = some site.change
  command : log[place]? = some site.command
  command_text : site.command.isBlank = false
  command_unmarked : isStepMarker site.command.text = false
  /-- All steps but a compile step have the command directly behind the directory change. -/
  next : kind ≠ .compileC → place = start + 1
  /-- That of a compile step is the first record that is neither blank nor a notice. -/
  first : kind = .compileC → start < place ∧ isResponseFileNotice site.command.text = false ∧
    ∀ between, start < between → between < place → ∃ record, log[between]? = some record ∧
      (record.isBlank = true ∨ isResponseFileNotice record.text = true)

/-- Where the reading of a step leaves a cursor, for each way in which it ends. -/
inductive Cursor.Leaves (cursor : Cursor) : Outcome → Cursor → Prop where
  | unclaimed : Leaves cursor .unclaimed cursor
  | postLink {command : Record} : Leaves cursor (.step (.postLink command)) cursor
  | skipped {kind : StepKind} {fault : StepFault} (other : fault.code ≠ .primaryOutputMismatch) :
      Leaves cursor (.skipped kind fault) cursor
  | mismatch {site : Site} {place sources objects : Nat} {behind : Cursor}
      (stands : site.StandsAt .swiftCompile cursor.log cursor.mark place)
      (log : behind.log = cursor.log) (mark : behind.mark = place + 1) :
      Leaves cursor (.skipped .swiftCompile (.pairMismatch site sources objects)) behind
  | step {step : Step} {site : Site} {place : Nat} {behind : Cursor}
      (sited : step.site? = some site)
      (stands : site.StandsAt step.kind cursor.log cursor.mark place)
      (log : behind.log = cursor.log) (mark : behind.mark = place + 1) :
      Leaves cursor (.step step) behind

section

variable {cursor : Cursor} {kind : StepKind} {marker : Record} {site : Site}

/-- A site that is read from the records ahead stands in the log at the cursor's position. -/
theorem Site.IsBehind.standsAt (stands : site.IsBehind kind marker cursor.ahead) :
    site.StandsAt kind cursor.log cursor.mark (cursor.mark + (1 + site.notices.length)) := by
  obtain ⟨after, shown⟩ := stands.shown
  have ahead : cursor.ahead = site.change.record :: (site.notices ++ site.command :: after) := by
    simp [← shown, behindMarker]
  have accepts := stands.command
  simp only [StepKind.acceptsCommand, Bool.and_eq_true, Bool.not_eq_true'] at accepts
  exact {
    change := by
      have here := cursor.getElem?_log 0
      rwa [ahead] at here
    directory := stands.change
    command := by
      rw [cursor.getElem?_log, ahead, Nat.add_comm, List.getElem?_cons_succ]
      simp
    command_text := accepts.1.1
    command_unmarked := accepts.1.2
    next := fun other => by simp [stands.notices_eq_nil other]
    first := by
      rintro rfl
      have stops : (site.command.text.isEmpty || isResponseFileNotice site.command.text) = false :=
        stands.command_not_passed
      refine ⟨by omega, (Bool.or_eq_false_iff.1 stops).2, fun between behind before => ?_⟩
      obtain ⟨offset, rfl⟩ : ∃ offset, between = cursor.mark + (offset + 1) :=
        ⟨between - cursor.mark - 1, by omega⟩
      have within : offset < site.notices.length := by omega
      refine ⟨site.notices[offset], ?_, ?_⟩
      · rw [cursor.getElem?_log, ahead, List.getElem?_cons_succ,
          List.getElem?_append_left within, List.getElem?_eq_getElem within]
      · exact Bool.or_eq_true_iff.1 (stands.notices _ (List.getElem_mem within)) }

theorem Site.IsBehind.mark_skip (stands : site.IsBehind kind marker cursor.ahead) :
    (cursor.skip site.behindMarker.length).mark = cursor.mark + (1 + site.notices.length) + 1 := by
  have within := stands.shown.length_le
  have count : site.behindMarker.length = 1 + site.notices.length + 1 := by
    simp [behindMarker, Nat.add_comm]
  rw [Cursor.mark_skip]
  omega

end

namespace Cursor

theorem Leaves.exists_standsAt {cursor behind : Cursor} {outcome : Outcome} {site : Site}
    (leaves : cursor.Leaves outcome behind) (found : outcome.site? = some site) :
    ∃ kind place, site.StandsAt kind cursor.log cursor.mark place ∧ behind.mark = place + 1 := by
  cases leaves with
  | unclaimed | postLink => cases found
  | @skipped kind fault other =>
    cases fault with
    | pairMismatch => exact absurd rfl other
    | _ => cases found
  | mismatch stands _ mark =>
    cases found
    exact ⟨_, _, stands, mark⟩
  | step sited stands _ mark =>
    cases sited.symm.trans found
    exact ⟨_, _, stands, mark⟩

variable (cursor : Cursor) (record : Record)

theorem leaves_skip_taken :
    cursor.Leaves (classify record cursor.ahead)
      (cursor.skip (classify record cursor.ahead).taken.length) := by
  have stands {site : Site} := @isBehind_of_site?_classify record cursor.ahead site
  have reading := @kind_of_classify_mismatch record cursor.ahead
  generalize classify record cursor.ahead = outcome at stands reading ⊢
  cases outcome with
  | unclaimed =>
    rw [Outcome.taken, List.length_nil, skip_zero]
    exact .unclaimed
  | skipped kind fault =>
    cases fault with
    | pairMismatch site sources objects =>
      obtain rfl := reading rfl
      obtain ⟨_, ⟨⟩, behind⟩ := stands rfl
      exact .mismatch behind.standsAt (cursor.log_skip _) behind.mark_skip
    | _ =>
      change cursor.Leaves _ (cursor.skip 0)
      rw [skip_zero]
      refine .skipped ?_
      intro same
      cases same
  | step found =>
    cases sited : found.site? with
    | none =>
      rw [Outcome.taken, sited, Option.map_none, Option.getD_none, List.length_nil, skip_zero]
      cases found with
      | postLink command => exact .postLink
      | _ => cases sited
    | some site =>
      obtain ⟨_, ⟨⟩, behind⟩ := stands sited
      rw [Outcome.taken, sited, Option.map_some, Option.getD_some]
      exact .step sited behind.standsAt (cursor.log_skip _) behind.mark_skip

/-- The reading of a record is decided by the records ahead. It leaves the cursor behind the
command of a step that is read or whose files are at odds, and else where it was. In the log of a
text the directory change is on the line behind the cursor, and the cursor ends behind the line of
the command. -/
theorem readOutcome_leaves :
    let read := cursor.readOutcome record
    read.1 = classify record cursor.ahead ∧ cursor.Leaves read.1 read.2 ∧
      ∀ text, cursor.log = Log.ofText text → ∀ site, read.1.site? = some site →
        site.change.record.line = .ofNat (cursor.mark + 1) ∧
          site.command.line = .ofNat read.2.mark := by
  intro read
  have same : read = _ := cursor.readOutcome_eq record
  have leaves : cursor.Leaves read.1 read.2 := by
    rw [same]
    exact cursor.leaves_skip_taken record
  refine ⟨by rw [same], leaves, fun text log site found => ?_⟩
  obtain ⟨kind, place, stands, mark⟩ := leaves.exists_standsAt found
  have change := stands.change
  have command := stands.command
  rw [log] at change command
  rw [mark]
  exact ⟨Log.line_of_getElem?_ofText change, Log.line_of_getElem?_ofText command⟩

-- the notice and the blank record belong to the step, whose command is on the last line
example : ((Cursor.start (Log.ofText
      "cd /d\nUsing response file: r\n\ncc a.c".toList)).readOutcome
        ⟨"CompileC a.o a.c normal".toList, .ofNat 0⟩).2.mark = 4 := by
  decide +kernel

end Cursor

end MakeRules
