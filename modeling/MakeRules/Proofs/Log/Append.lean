import MakeRules.Proofs.Log.Run
import MakeRules.Proofs.Text.Lines
import Mathlib.Data.List.Infix

/-! Logs behind which another goes on.

A step looks no further than its command. Where no step of a log meets the end of the log
before that, what follows the log changes nothing of what its records begin.
-/

set_option autoImplicit false

namespace MakeRules

/-- Whether the search for a directory change and a command meets the end of the log. -/
def Site.meetsEnd (kind : StepKind) : Log → Bool
  | [] => true
  | record :: rest =>
    (DirectoryChange.ofRecord? record).isSome && rest.all (kind.passes ·.text)

/-- Whether the reading of a marker's step looks for a site. A marker without its paths is
refused before that, and a post-link command is no more than its marker. -/
def StepKind.seeksSite (kind : StepKind) (marker : Record) : Bool :=
  kind != .postLink && (markerPaths marker kind.pathCount).length == kind.pathCount

/-- Whether the step that a record begins meets the end of the log in its search. -/
def Record.meetsEnd (record : Record) (behind : Log) : Bool :=
  (StepKind.ofText? record.text).any fun kind =>
    kind.seeksSite record && Site.meetsEnd kind behind

/-- The end is met where a cursor finds no record for the directory change or for the command. -/
theorem Cursor.meetsEnd_ahead (cursor : Cursor) (kind : StepKind) :
    Site.meetsEnd kind cursor.ahead = true ↔ cursor.isAtEnd = true ∨
      ∃ change opened, cursor.nextDirectoryChange = (some change, opened) ∧
        (opened.nextCommand kind).1 = none := by
  unfold nextDirectoryChange isAtEnd
  cases ahead : cursor.ahead with
  | nil => simp [Site.meetsEnd]
  | cons record rest =>
    cases found : DirectoryChange.ofRecord? record with
    | none => simp [Site.meetsEnd, found]
    | some change => simp [Site.meetsEnd, found, nextCommand_eq, ahead]

section

variable {kind : StepKind} {marker : Record} {behind : Log}

theorem Site.read_append (within : meetsEnd kind behind = false) (more : Log) :
    read kind marker (behind ++ more) = read kind marker behind := by
  cases behind with
  | nil => cases within
  | cons record rest =>
    cases found : DirectoryChange.ofRecord? record with
    | none => simp [read, found]
    | some change =>
      -- some record is not passed over, and the search stops there
      have parts := List.takeWhile_append_dropWhile (p := (kind.passes ·.text)) (l := rest)
      cases others : rest.dropWhile (kind.passes ·.text) with
      | nil =>
        have passed := List.dropWhile_eq_nil_iff.1 others
        have all : rest.all (kind.passes ·.text) = true := List.all_eq_true.2 passed
        simp [meetsEnd, found, all] at within
      | cons command after =>
        have stops := List.head_dropWhile_not (kind.passes ·.text) (l := rest) (by simp [others])
        simp only [others, List.head_cons] at stops parts
        have passed : ∀ notice ∈ rest.takeWhile (kind.passes ·.text),
            kind.passes notice.text = true := fun notice member =>
          List.mem_takeWhile_imp (p := fun other : Record => kind.passes other.text) member
        generalize rest.takeWhile (kind.passes ·.text) = notices at parts passed
        subst parts
        simp only [read, found, List.cons_append, List.append_assoc,
          takeWhile_append_cons passed stops, dropWhile_append_cons passed stops]

theorem Step.read_append (within : (kind.seeksSite marker && Site.meetsEnd kind behind) = false)
    (more : Log) : read kind marker (behind ++ more) = read kind marker behind := by
  rcases Bool.and_eq_false_iff.1 within with unsought | within
  · rcases Bool.and_eq_false_iff.1 unsought with unsited | malformed
    · obtain rfl : kind = .postLink := by simpa using unsited
      rfl
    · have paths : (markerPaths marker kind.pathCount).length ≠ kind.pathCount := by
        simpa using malformed
      simp only [read, readWith_of_malformed _ paths]
  · simp only [read, Site.read_append within]

theorem classify_append (within : marker.meetsEnd behind = false) (more : Log) :
    classify marker (behind ++ more) = classify marker behind := by
  unfold classify
  unfold Record.meetsEnd at within
  cases marks : StepKind.ofText? marker.text with
  | none => rfl
  | some kind =>
    rw [marks, Option.any_some] at within
    simp only [Step.read_append within]

end

namespace Log

/-- No step of the log meets its end in the search for a directory change or a command. -/
def Whole (log : Log) : Prop :=
  ∀ dispatch ∈ log.dispatch, ∀ behind, dispatch.record :: behind <:+ log →
    dispatch.record.meetsEnd behind = false

instance (log : Log) : Decidable log.Whole :=
  decidable_of_iff (∀ dispatch ∈ log.dispatch, ∀ tail ∈ log.tails,
      tail.head? = some dispatch.record → dispatch.record.meetsEnd tail.tail = false) <| by
    constructor
    · intro each dispatch member behind ends
      exact each dispatch member (dispatch.record :: behind) ((List.mem_tails _ _).2 ends) rfl
    · intro whole dispatch member tail ends first
      obtain ⟨behind, rfl⟩ := List.head?_eq_some_iff.1 first
      exact whole dispatch member behind ((List.mem_tails _ _).1 ends)

variable {record : Record} {rest : Log}

theorem Whole.head (whole : Whole (record :: rest)) : record.meetsEnd rest = false :=
  whole ⟨record, classify record rest⟩ (by simp [dispatch_cons]) rest List.suffix_rfl

theorem Whole.tail (whole : Whole (record :: rest)) :
    Whole (rest.drop (classify record rest).taken.length) := by
  intro dispatch member behind ends
  apply whole dispatch
  · rw [dispatch_cons]
    exact List.mem_cons_of_mem _ member
  · exact (ends.trans (List.drop_suffix ..)).trans (List.suffix_cons ..)

/-- What follows a log whose steps are whole begins anew. -/
theorem dispatch_append {log : Log} (whole : log.Whole) (more : Log) :
    (log ++ more).dispatch = log.dispatch ++ more.dispatch := by
  induction log using dispatch_induction with
  | nil => rfl
  | cons record rest ih =>
    have within := (taken_classify_isPrefix record rest).length_le
    rw [List.cons_append, dispatch_cons, dispatch_cons, classify_append whole.head,
      List.drop_append_of_le_length within, ih whole.tail, List.cons_append]

theorem ofText_append {front : Text} (ended : front.getLast? = some '\n') (rest : Text) :
    ofText (front ++ rest) = ofText front ++ ofLines front.lines.length rest.lines := by
  simp [ofText, ofLines, Text.lines_append ended, List.zipIdx_append, Nat.add_comm]

end Log

end MakeRules
