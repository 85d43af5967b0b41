import MakeRules.Proofs.Log.Cursor
import MakeRules.Proofs.Step.Reading
import MakeRules.Step.Dispatch

/-! Reading through a cursor agrees with reading from the records behind it.

A reading that fails looks at records and sets the cursor back; one that succeeds
leaves it behind what it has taken. Either way the cursor ends as if it had been
moved over the taken records alone.
-/

set_option autoImplicit false

namespace MakeRules

namespace Cursor

theorem nextCommand_eq (cursor : Cursor) (kind : StepKind) :
    cursor.nextCommand kind =
      ((cursor.ahead.dropWhile (kind.passes ·.text)).head?,
        cursor.skip ((cursor.ahead.takeWhile (kind.passes ·.text)).length + 1)) := by
  rw [← next_skip_takeWhile]
  cases kind with
  | compileC => rfl
  | _ =>
    have none_passed : cursor.ahead.takeWhile (fun _ => false) = [] := by
      cases cursor.ahead <;> rfl
    simp [nextCommand, StepKind.passes, none_passed]

end Cursor

section

variable {kind : StepKind} {marker : Record} {cursor : Cursor}

theorem Site.reader_of_read_ok {site : Site} (reads : read kind marker cursor.ahead = .ok site) :
    reader kind marker cursor = (.ok site, cursor.skip site.behindMarker.length) := by
  obtain ⟨rfl, ⟨after, shown⟩, change, notices, stops, accepts⟩ := read_eq_ok_iff.1 reads
  have ahead : cursor.ahead = site.change.record :: (site.notices ++ site.command :: after) := by
    simp [← shown, behindMarker]
  have passed := takeWhile_append_cons notices stops after
  have left := dropWhile_append_cons notices stops after
  have between : (cursor.skip (1 + (site.notices.length + 1))).mark - (cursor.skip 1).mark - 1 =
      site.notices.length := by
    simp only [Cursor.mark_skip, ahead, List.length_cons, List.length_append]
    omega
  have count : site.behindMarker.length = 1 + (site.notices.length + 1) := by
    simp [behindMarker, Nat.add_comm]
  simp [reader, readerBy, Cursor.nextDirectoryChange, Cursor.nextCommand_eq, ahead, change, passed, left,
    accepts, between, count]

theorem Site.reader_of_read_error {fault : StepFault}
    (fails : read kind marker cursor.ahead = .error fault) :
    reader kind marker cursor = (.error fault, cursor) := by
  unfold read at fails
  unfold reader readerBy Cursor.nextDirectoryChange
  cases ahead : cursor.ahead with
  | nil =>
    simp only [ahead] at fails
    simp only [List.head?_nil, Option.bind_none, Except.error.inj fails]
  | cons record rest =>
    simp only [ahead] at fails
    cases found : DirectoryChange.ofRecord? record with
    | none =>
      simp only [found] at fails
      simp only [List.head?_cons, Option.bind_some, found, Except.error.inj fails]
    | some change =>
      simp only [found] at fails
      simp only [List.head?_cons, Option.bind_some, found, Cursor.nextCommand_eq, Cursor.ahead_skip,
        ahead, List.drop_succ_cons, List.drop_zero, Cursor.skip_skip]
      -- the cursor has moved by now and is set back
      cases others : rest.dropWhile (kind.passes ·.text) with
      | nil =>
        simp only [others] at fails
        simp only [List.head?_nil, Except.error.inj fails, Cursor.reset_mark (Cursor.log_skip ..)]
      | cons command after =>
        simp only [others] at fails
        split at fails
        · cases fails
        · next refused =>
          simp only [List.head?_cons, if_neg refused, Except.error.inj fails,
            Cursor.reset_mark (Cursor.log_skip ..)]

section

variable {α : Type} {reader : StepReader Site} {next : Site → StepReader α} {behind : Cursor}

theorem StepReader.bind_of_ok {site : Site} (reads : reader cursor = (.ok site, behind)) :
    (reader >>= next) cursor = next site behind := by
  simp [bind, ExceptT.bind, ExceptT.mk, StateT.bind, reads, ExceptT.bindCont]

theorem StepReader.bind_of_error {fault : StepFault} (fails : reader cursor = (.error fault, behind)) :
    (reader >>= next) cursor = (.error fault, behind) := by
  simp [bind, ExceptT.bind, ExceptT.mk, StateT.bind, fails, ExceptT.bindCont]
  rfl

end

theorem Step.reader_of_site {result : Except StepFault Site} {behind : Cursor}
    (reads : Site.reader kind marker cursor = (result, behind)) (sited : kind ≠ .postLink)
    (paths : (markerPaths marker kind.pathCount).length = kind.pathCount) :
    reader kind marker cursor = (readWith result kind marker, behind) := by
  cases kind with
  | compileC =>
    obtain ⟨object, source, named⟩ := List.length_eq_two.1 paths
    simp only [StepKind.pathCount] at named
    simp only [reader, readWith, named]
    cases result with
    | ok site => rw [StepReader.bind_of_ok reads]; rfl
    | error fault => rw [StepReader.bind_of_error reads]; rfl
  | swiftDriver =>
    simp only [reader, readWith]
    cases result with
    | ok site => rw [StepReader.bind_of_ok reads]; rfl
    | error fault => rw [StepReader.bind_of_error reads]; rfl
  | swiftCompile =>
    simp only [reader, readWith]
    cases result with
    | ok site =>
      rw [StepReader.bind_of_ok reads]
      simp only [bind, Except.bind]
      split <;> rfl
    | error fault => rw [StepReader.bind_of_error reads]; rfl
  | link =>
    obtain ⟨output, named⟩ := List.length_eq_one_iff.1 paths
    simp only [StepKind.pathCount] at named
    simp only [reader, readWith, named]
    cases result with
    | ok site => rw [StepReader.bind_of_ok reads]; rfl
    | error fault => rw [StepReader.bind_of_error reads]; rfl
  | postLink => exact absurd rfl sited

theorem Step.reader_of_malformed
    (paths : (markerPaths marker kind.pathCount).length ≠ kind.pathCount) :
    reader kind marker cursor = (.error (.malformedMarker kind.pathCount), cursor) := by
  unfold reader
  rw [readWith_of_malformed _ paths]
  rfl

/-- A step that is read takes its site, and so does one whose files are at odds; any other
leaves the cursor where it was. -/
theorem Step.reader_eq (kind : StepKind) (marker : Record) (cursor : Cursor) :
    reader kind marker cursor = (read kind marker cursor.ahead,
      cursor.skip (Outcome.ofRead kind (read kind marker cursor.ahead)).taken.length) := by
  by_cases paths : (markerPaths marker kind.pathCount).length = kind.pathCount
  · by_cases sited : kind = .postLink
    · subst sited
      simp [read, readWith, pure, Except.pure, Outcome.ofRead, Outcome.taken, site?]
      rfl
    · cases reads : Site.read kind marker cursor.ahead with
      | ok site =>
        rw [reader_of_site (Site.reader_of_read_ok reads) sited paths, read, reads]
        have shape := isRead_readWith (.ok site) kind marker
        generalize (readWith (.ok site) kind marker : Except StepFault Step) = result at shape ⊢
        cases shape with
        | malformed malformed => exact absurd paths malformed
        | postLink => exact absurd rfl sited
        | _ => rfl
      | error fault =>
        rw [reader_of_site (Site.reader_of_read_error reads) sited paths, read, reads]
        have shape := isRead_readWith (.error fault) kind marker
        generalize (readWith (.error fault) kind marker : Except StepFault Step) = result at shape ⊢
        cases shape with
        | malformed malformed => exact absurd paths malformed
        | postLink => exact absurd rfl sited
        | noSite =>
          rcases Site.read_eq_error reads with rfl | rfl
          · simp [Outcome.ofRead, Outcome.taken, StepFault.taken]
          · simp [Outcome.ofRead, Outcome.taken, StepFault.taken]
  · rw [reader_of_malformed paths, read, readWith_of_malformed _ paths]
    simp [throw, throwThe, MonadExceptOf.throw, Outcome.ofRead, Outcome.taken, StepFault.taken]

end

theorem Cursor.readOutcome_eq (cursor : Cursor) (record : Record) :
    cursor.readOutcome record =
      (classify record cursor.ahead, cursor.skip (classify record cursor.ahead).taken.length) := by
  unfold readOutcome readOutcomeBy classify
  cases StepKind.ofText? record.text with
  | none => simp [Outcome.taken]
  | some kind =>
    simp only [Step.reader_eq]
    cases Step.read kind record cursor.ahead <;> rfl

end MakeRules
