import MakeRules.Proofs.Translation.Entries
import MakeRules.Proofs.Translation.Run
import Mathlib.Data.List.Perm.Basic

/-! What becomes of the records of a log in its translation.

A record with a text is repeated as a comment, or it is the directory change or the
command of one step, or a notice between the two. No record is lost, and none is
put to two uses.
-/

set_option autoImplicit false

namespace MakeRules

namespace Dispatch

/-- The directory change and the command of the step, if it is read or its files are at odds. -/
def siteRecords (dispatch : Dispatch) : List Record :=
  match dispatch.outcome.site? with
  | some site => [site.change.record, site.command]
  | none => []

/-- The notices between directory change and command of a compile step. -/
def notices (dispatch : Dispatch) : List Record :=
  match dispatch.outcome with
  | .step (.compileC site _) => site.notices.filter (isResponseFileNotice ·.text)
  | _ => []

end Dispatch

section

variable {kind : StepKind} {record : Record} {behind : Log} {site : Site}

theorem Site.IsBehind.filter_notices (stands : site.IsBehind .compileC record behind) :
    site.notices.filter (fun notice => !notice.isBlank) =
      site.notices.filter (isResponseFileNotice ·.text) := by
  apply List.filter_congr
  intro notice member
  have passes : (notice.isBlank || isResponseFileNotice notice.text) = true :=
    stands.notices notice member
  cases isNotice : isResponseFileNotice notice.text with
  | true => simp [isBlank_of_isResponseFileNotice isNotice]
  | false => simpa [isNotice] using passes

/-- Of what is passed over on the way to a command, the records with a text are the notices of
a compile step. -/
theorem Dispatch.filter_notices {dispatch : Dispatch}
    (same : dispatch.outcome = classify dispatch.record behind)
    (taken : dispatch.outcome.site? = some site) :
    site.notices.filter (fun notice => !notice.isBlank) = dispatch.notices := by
  obtain ⟨kind, ofKind, stands⟩ := isBehind_of_site?_classify (same ▸ taken)
  rw [← same] at ofKind
  unfold notices
  cases outcome : dispatch.outcome with
  | unclaimed => simp [outcome, Outcome.site?] at taken
  | skipped other fault =>
    obtain rfl : other = kind := by simpa [outcome, Outcome.kind?] using ofKind
    cases fault with
    | pairMismatch found sources objects =>
      obtain rfl := kind_of_classify_mismatch (same.symm.trans outcome)
      rw [stands.notices_eq_nil (by decide)]
      rfl
    | _ => simp [outcome, Outcome.site?] at taken
  | step found =>
    obtain rfl : found.kind = kind := by simpa [outcome, Outcome.kind?] using ofKind
    cases found with
    | compileC =>
      obtain rfl : _ = site := by simpa [outcome, Outcome.site?, Step.site?] using taken
      exact stands.filter_notices
    | _ =>
      rw [stands.notices_eq_nil (by simp [Step.kind])]
      rfl

theorem Site.IsBehind.filter_behindMarker (stands : site.IsBehind kind record behind) :
    site.behindMarker.filter (fun record => !record.isBlank) =
      site.change.record :: site.notices.filter (fun notice => !notice.isBlank) ++
        [site.command] := by
  have change := isBlank_of_ofRecord? stands.change
  have command : site.command.isBlank = false := by
    have accepts := stands.command
    simp only [StepKind.acceptsCommand, Bool.and_eq_true, Bool.not_eq_true'] at accepts
    exact accepts.1.1
  simp [behindMarker, change, command]

end

theorem Dispatch.notices_eq_nil {dispatch : Dispatch} (untaken : dispatch.outcome.site? = none) :
    dispatch.notices = [] := by
  unfold notices
  split
  · next site files step => simp [step, Outcome.site?, Step.site?] at untaken
  · rfl

/-- The records of a dispatch that have a text are put to use, each once. -/
theorem filter_records_perm {log : Log} {dispatch : Dispatch} (member : dispatch ∈ log.run) :
    (dispatch.records.filter fun record => !record.isBlank).Perm
      (dispatch.record :: (dispatch.siteRecords ++ dispatch.notices)) := by
  obtain ⟨dispatched, text⟩ := Log.mem_run_iff.1 member
  obtain ⟨behind, same, _⟩ := Log.exists_behind_of_mem_dispatch dispatched
  rw [Dispatch.records, List.filter_cons_of_pos (by simp [text])]
  apply List.Perm.cons
  rw [Outcome.taken_eq]
  cases taken : dispatch.outcome.site? with
  | none => simp [Dispatch.siteRecords, taken, Dispatch.notices_eq_nil taken]
  | some site =>
    obtain ⟨kind, _, stands⟩ := isBehind_of_site?_classify (same ▸ taken)
    rw [Option.map_some, Option.getD_some, stands.filter_behindMarker,
      Dispatch.filter_notices same taken]
    simp only [Dispatch.siteRecords, taken]
    exact (List.perm_append_singleton _ _).cons _

namespace Log

theorem filter_eq_flatMap_run (log : Log) :
    (log.filter fun record => !record.isBlank) =
      log.run.flatMap fun dispatch => dispatch.records.filter fun record => !record.isBlank := by
  induction log using dispatch_induction with
  | nil => rfl
  | cons record rest ih =>
    have parts := List.prefix_iff_eq_append.1 (taken_classify_isPrefix record rest)
    have rest_parts : rest.filter (fun record => !record.isBlank) =
        (classify record rest).taken.filter (fun record => !record.isBlank) ++
          (rest.drop (classify record rest).taken.length).filter fun record => !record.isBlank := by
      rw [← List.filter_append, parts]
    by_cases blank : record.isBlank = true
    · rw [classify_of_isBlank blank] at ih
      simpa [run_cons_of_isBlank blank, blank, Outcome.taken] using ih
    · rw [Bool.not_eq_true] at blank
      simp [run_cons blank, Dispatch.records, blank, rest_parts, ih]

/-- The records with a text fall into those that are dispatched, those of sites, and notices. -/
theorem filter_perm (log : Log) :
    (log.filter fun record => !record.isBlank).Perm (log.run.map (·.record) ++
      (log.run.flatMap (·.siteRecords) ++ log.run.flatMap (·.notices))) := by
  have pieces := List.Perm.flatMap_left log.run fun dispatch member => filter_records_perm member
  have heads := List.map_append_flatMap_perm log.run (·.record)
    fun dispatch => dispatch.siteRecords ++ dispatch.notices
  have uses := List.flatMap_append_perm log.run (·.siteRecords) (·.notices)
  rw [filter_eq_flatMap_run]
  exact pieces.trans (heads.symm.trans (uses.symm.append_left _))

end Log

namespace Translation

theorem flatMap_echo_contributions (view : FileView) (file : Text) (table : RuleTable)
    {dispatches : List Dispatch} (texts : ∀ dispatch ∈ dispatches, dispatch.record.isBlank = false) :
    (contributions view file table dispatches).flatMap (·.echo.toList) =
      dispatches.map (·.record.text) := by
  induction dispatches generalizing table with
  | nil => rfl
  | cons dispatch rest ih =>
    have text := texts dispatch List.mem_cons_self
    have echo : (dispatch.contribute view file table).echo = some dispatch.record.text := by
      simp [Dispatch.contribute, text]
    rw [contributions, List.flatMap_cons, ih _ fun other member =>
      texts other (List.mem_cons_of_mem _ member), echo]
    rfl

/-- Each record with a text is put to one use: it is repeated as a comment, or it is the
directory change or the command of one step, or a notice between these in one compile step. -/
theorem records_put_to_one_use (view : FileView) (options : TranslationOptions) (text : Text) :
    let log := Log.ofText text
    let echoed := log.run.map (·.record)
    let used := echoed ++ (log.run.flatMap (·.siteRecords) ++ log.run.flatMap (·.notices))
    (log.filter fun record => !record.isBlank).Perm used ∧ used.Nodup ∧
      (ofText view options text).makefile.comments = echoed.map (·.text) ∧ echoed.Sublist log ∧
      ∀ dispatch ∈ log.run, dispatch.records <:+: log ∧
        ∀ kind site sources objects,
          dispatch.outcome = .skipped kind (.pairMismatch site sources objects) →
            kind = .swiftCompile := by
  intro log echoed used
  have partition : (log.filter fun record => !record.isBlank).Perm used := log.filter_perm
  refine ⟨partition, partition.nodup_iff.1 ((Log.nodup_ofText text).filter _), ?_,
    log.map_record_run_sublist, fun dispatch member => ⟨?_, ?_⟩⟩
  · rw [ofText, ofLog_eq_run, comments_ofContributions, flatMap_echo_contributions, List.map_map]
    · rfl
    · exact fun dispatch member => (Log.mem_run_iff.1 member).2
  · exact Log.records_isInfix (Log.mem_run_iff.1 member).1
  · intro kind site sources objects mismatch
    obtain ⟨behind, same, _⟩ :=
      Log.exists_behind_of_mem_dispatch (Log.mem_run_iff.1 member).1
    exact kind_of_classify_mismatch (same.symm.trans mismatch)

end Translation

end MakeRules
