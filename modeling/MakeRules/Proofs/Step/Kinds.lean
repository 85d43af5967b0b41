import MakeRules.Proofs.Step.Markers
import MakeRules.Step.Dispatch

/-! What a record can be, and the order in which the kinds of step are asked.

A record is no more than one of a marker, a directory change, a notice and a blank, and marks a step
of one kind only. So it makes no difference which kind is asked first: not to what a record begins,
nor to where its reading ends, nor to which records are refused as a command.
-/

set_option autoImplicit false

namespace MakeRules

theorem countP_le_one_of_pairwise {α : Type} {holds : α → Bool} {items : List α}
    (apart : items.Pairwise fun one other => holds one = true → holds other = false) :
    items.countP holds ≤ 1 := by
  induction apart with
  | nil => exact Nat.zero_le 1
  | @cons one others apart _ ih =>
    cases first : holds one with
    | true =>
      have none_other : others.countP holds = 0 :=
        List.countP_eq_zero.2 fun other member => by simp [apart other member first]
      have single : (one :: others).countP holds = 0 + 1 := by
        rw [List.countP_cons_of_pos first, none_other]
      exact Nat.le_of_eq single
    | false => rwa [List.countP_cons_of_neg (by simp [first])]

namespace StepKind

theorem countP_isMarker_le_one (text : Text) : all.countP (·.isMarker text) ≤ 1 := by
  apply countP_le_one_of_pairwise
  have distinct : all.Nodup := by decide
  refine distinct.imp fun {one other} differ marks => ?_
  rw [Bool.eq_false_iff]
  exact fun marksOther => differ (eq_of_isMarker marks marksOther)

theorem isMarker_eq_false_of_requirements {text : Text} (kind : StepKind)
    (begins : "SwiftDriver\\ Compilation\\ Requirements".toList <+: text) :
    kind.isMarker text = false := by
  have unmarked := isStepMarker_eq_false_of_isPrefix begins (by decide)
  rw [Bool.eq_false_iff] at unmarked ⊢
  exact fun marks => unmarked (isStepMarker_iff.2 ⟨kind, marks⟩)

end StepKind

/-- What a record can be besides a command: a marker, a directory change, a notice, a blank. -/
def Record.roles (record : Record) : List Bool :=
  [isStepMarker record.text, (DirectoryChange.ofRecord? record).isSome,
    isResponseFileNotice record.text, record.isBlank]

theorem not_isResponseFileNotice_of_isPrefix {text beginning : Text} (begins : beginning <+: text)
    (apart : ¬ beginning <+: "Using response file:".toList ∧
      ¬ "Using response file:".toList <+: beginning) : isResponseFileNotice text = false := by
  rw [Bool.eq_false_iff]
  intro notice
  exact (List.prefix_or_prefix_of_prefix begins (List.isPrefixOf_iff_prefix.1 notice)).elim
    apart.1 apart.2

theorem not_isResponseFileNotice_of_ofRecord? {record : Record} {change : DirectoryChange}
    (reads : DirectoryChange.ofRecord? record = some change) :
    isResponseFileNotice record.text = false := by
  rcases DirectoryChange.isPrefix_of_ofRecord? reads with timed | plain
  · exact not_isResponseFileNotice_of_isPrefix timed (by decide)
  · exact not_isResponseFileNotice_of_isPrefix plain (by decide)

theorem roles_of_isStepMarker {record : Record} (marks : isStepMarker record.text = true) :
    (DirectoryChange.ofRecord? record).isSome = false ∧
      isResponseFileNotice record.text = false ∧ record.isBlank = false := by
  simp only [Bool.eq_false_iff]
  refine ⟨fun changes => ?_, fun notice => ?_, fun blank => ?_⟩
  · obtain ⟨change, reads⟩ := Option.isSome_iff_exists.1 changes
    cases marks.symm.trans (DirectoryChange.not_isStepMarker reads)
  · cases marks.symm.trans (isStepMarker_of_isResponseFileNotice notice)
  · exact ne_nil_of_isStepMarker marks (List.isEmpty_iff.1 blank)

theorem Record.count_roles_le_one (record : Record) : record.roles.count true ≤ 1 := by
  apply countP_le_one_of_pairwise
  simp only [beq_true]
  refine .cons (fun other member marks => ?_) (.cons (fun other member changes => ?_)
    (.cons (fun other member notice => ?_) (List.pairwise_singleton _ _)))
  · obtain ⟨unchanged, unnoticed, written⟩ := roles_of_isStepMarker marks
    simpa [unchanged, unnoticed, written] using member
  · obtain ⟨change, reads⟩ := Option.isSome_iff_exists.1 changes
    have unnoticed := not_isResponseFileNotice_of_ofRecord? reads
    simpa [unnoticed, isBlank_of_ofRecord? reads] using member
  · simpa [isBlank_of_isResponseFileNotice notice] using member

/-! ### The order of the kinds -/

section

variable (order : List StepKind)

/-- Whether a record can be the command of a step, markers being those of the kinds in an order. -/
def StepKind.acceptsCommandIn (kind : StepKind) (text : Text) : Bool :=
  !text.isEmpty && !order.any (·.isMarker text) &&
    (kind != .swiftCompile || SwiftInvocation.isCompile text)

/-- Read the step of a kind that a record marks, the kinds being asked in an order. -/
def Step.readerIn (kind : StepKind) (marker : Record) : StepReader Step :=
  Step.readWith (Site.readerBy (kind.acceptsCommandIn order) kind marker) kind marker

/-- What a record begins if the kinds are asked in an order, and where the cursor stands then. -/
def Cursor.readOutcomeIn (cursor : Cursor) (record : Record) : Outcome × Cursor :=
  cursor.readOutcomeBy (StepKind.firstOf order) (Step.readerIn order) record

end

section

variable {order : List StepKind} (complete : ∀ kind : StepKind, kind ∈ order)

include complete

theorem StepKind.firstOf_eq : firstOf order = ofText? := by
  funext text
  ext kind
  rw [firstOf_eq_some_iff complete, ofText?_eq_some_iff]

theorem StepKind.acceptsCommandIn_eq (kind : StepKind) :
    kind.acceptsCommandIn order = kind.acceptsCommand := by
  funext text
  have marks : order.any (·.isMarker text) = isStepMarker text := by
    rw [Bool.eq_iff_iff, List.any_eq_true, isStepMarker_iff]
    exact exists_congr fun kind => and_iff_right (complete kind)
  rw [acceptsCommandIn, acceptsCommand, marks]

theorem Step.readerIn_eq : Step.readerIn order = reader := by
  funext kind marker
  rw [readerIn, StepKind.acceptsCommandIn_eq complete]
  rfl

theorem Cursor.readOutcomeIn_eq (cursor : Cursor) (record : Record) :
    cursor.readOutcomeIn order record = cursor.readOutcome record := by
  rw [readOutcomeIn, StepKind.firstOf_eq complete, Step.readerIn_eq complete]
  rfl

end

/-- A record marks a step of one kind at most and has one role at most, whatever its text. So the
order of the kinds makes no difference to what it begins, to the cursor, or to what is reported. -/
theorem kinds_of_record_apart (record : Record) :
    StepKind.all.countP (·.isMarker record.text) ≤ 1 ∧ record.roles.count true ≤ 1 ∧
      (∀ order : List StepKind, order.Perm StepKind.all → ∀ (cursor : Cursor) (file : Text),
        let read := cursor.readOutcomeIn order record
        read = cursor.readOutcome record ∧
          Dispatch.diagnostics file ⟨record, read.1⟩ =
            Dispatch.diagnostics file ⟨record, (cursor.readOutcome record).1⟩) ∧
      ("SwiftDriver\\ Compilation\\ Requirements".toList <+: record.text →
        ∀ kind : StepKind, kind.isMarker record.text = false) := by
  refine ⟨StepKind.countP_isMarker_le_one record.text, record.count_roles_le_one,
    fun order same cursor file => ?_,
    fun begins kind => kind.isMarker_eq_false_of_requirements begins⟩
  have complete (kind : StepKind) : kind ∈ order := same.mem_iff.2 kind.mem_all
  rw [Cursor.readOutcomeIn_eq complete]
  exact ⟨rfl, rfl⟩

theorem kinds_of_record_apart_of_nested_words :
    let order := StepKind.all.reverse
    let marker : Record := { text := "CompileSwiftSources normal".toList, line := .ofNat 1 }
    let requirements : Record := {
      text := "SwiftDriver\\ Compilation\\ Requirements app".toList, line := .ofNat 4 }
    let cursor := Cursor.start [
      { text := "cd /d".toList, line := .ofNat 2 }, { text := "Ld app".toList, line := .ofNat 3 }]
    let read := cursor.readOutcomeIn order marker
    order.Perm StepKind.all ∧
      "SwiftDriver\\ Compilation\\ Requirements".toList <+: requirements.text ∧
      read.1 = .skipped .swiftDriver .missingCommand ∧ read.2.mark = 0 ∧
      ∀ kind : StepKind, kind.isMarker requirements.text = false := by
  intro order marker requirements cursor read
  have same : order.Perm StepKind.all := List.reverse_perm StepKind.all
  have begins : "SwiftDriver\\ Compilation\\ Requirements".toList <+: requirements.text := by decide
  have reads : read = cursor.readOutcome marker :=
    ((kinds_of_record_apart marker).2.2.1 order same cursor []).1
  have unmarked := (kinds_of_record_apart requirements).2.2.2 begins
  rw [reads]
  exact ⟨same, begins, by decide, by decide, unmarked⟩

end MakeRules
