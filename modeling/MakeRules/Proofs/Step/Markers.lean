import MakeRules.Proofs.Text.Spaced
import MakeRules.Step.Classify

/-! Which texts mark a step.

A marker begins with one of a few words. A text that begins in another way than
each of them, as a directory change or a notice does, marks no step. All of these
have a text.
-/

set_option autoImplicit false

namespace MakeRules

namespace StepKind

theorem isMarker_iff {kind : StepKind} {text : Text} :
    kind.isMarker text = true ↔ ∃ word ∈ kind.markerWords, (text.behindWord? word).isSome = true := by
  simp [isMarker]

theorem eq_of_isMarker {first second : StepKind} {text : Text}
    (marksFirst : first.isMarker text = true) (marksSecond : second.isMarker text = true) :
    first = second := by
  have apart : ∀ one ∈ all, ∀ word ∈ one.markerWords, ∀ two ∈ all, ∀ other ∈ two.markerWords,
      other.behindWord? word = none ∧ (word = other → one = two) := by decide
  obtain ⟨word, named, found⟩ := isMarker_iff.1 marksFirst
  obtain ⟨other, namedOther, foundOther⟩ := isMarker_iff.1 marksSecond
  obtain ⟨whole, same⟩ :=
    apart first first.mem_all word named second second.mem_all other namedOther
  obtain ⟨wholeFirst, _⟩ :=
    apart second second.mem_all other namedOther first first.mem_all word named
  have begins := Text.isPrefix_of_behindWord? found
  have beginsOther := Text.isPrefix_of_behindWord? foundOther
  rcases List.prefix_or_prefix_of_prefix begins beginsOther with shorter | longer
  · exact same (Text.eq_of_behindWord? found shorter beginsOther whole)
  · exact same (Text.eq_of_behindWord? foundOther longer begins wholeFirst).symm

theorem isMarker_of_firstOf {order : List StepKind} {kind : StepKind} {text : Text}
    (found : firstOf order text = some kind) : kind.isMarker text = true :=
  List.find?_some (p := fun kind : StepKind => kind.isMarker text) found

/-- It makes no difference which kind is asked first. -/
theorem firstOf_eq_some_iff {order : List StepKind} (complete : ∀ kind, kind ∈ order)
    {kind : StepKind} {text : Text} :
    firstOf order text = some kind ↔ kind.isMarker text = true := by
  refine ⟨isMarker_of_firstOf, fun marks => ?_⟩
  cases found : firstOf order text with
  | none => exact absurd marks (List.find?_eq_none.1 found kind (complete kind))
  | some other => rw [eq_of_isMarker (isMarker_of_firstOf found) marks]

theorem ofText?_eq_some_iff {kind : StepKind} {text : Text} :
    ofText? text = some kind ↔ kind.isMarker text = true :=
  firstOf_eq_some_iff mem_all

end StepKind

theorem isStepMarker_iff {text : Text} :
    isStepMarker text = true ↔ ∃ kind : StepKind, kind.isMarker text = true := by
  simp [isStepMarker, StepKind.ofText?, StepKind.firstOf, StepKind.mem_all]

/-- A text marks no step if it begins in a way in which no marker word begins, and with no marker
word and white space. -/
theorem isStepMarker_eq_false_of_isPrefix {text beginning : Text} (begins : beginning <+: text)
    (apart : ∀ kind ∈ StepKind.all, ∀ word ∈ kind.markerWords,
      ¬ beginning <+: word ∧ beginning.behindWord? word = none) : isStepMarker text = false := by
  rw [Bool.eq_false_iff]
  intro marks
  obtain ⟨kind, marks⟩ := isStepMarker_iff.1 marks
  obtain ⟨word, member, found⟩ := StepKind.isMarker_iff.1 marks
  obtain ⟨longer, whole⟩ := apart kind kind.mem_all word member
  -- two beginnings of one text: the shorter begins the longer
  rcases List.prefix_or_prefix_of_prefix begins (Text.isPrefix_of_behindWord? found) with
    shorter | shorter
  · exact longer shorter
  · exact longer (Text.eq_of_behindWord? found shorter begins whole ▸ List.prefix_rfl)

theorem isStepMarker_nil : isStepMarker [] = false := by decide

theorem ne_nil_of_isStepMarker {text : Text} (marks : isStepMarker text = true) : text ≠ [] := by
  rintro rfl
  cases isStepMarker_nil.symm.trans marks

theorem isStepMarker_of_isResponseFileNotice {text : Text}
    (notice : isResponseFileNotice text = true) : isStepMarker text = false :=
  isStepMarker_eq_false_of_isPrefix (List.isPrefixOf_iff_prefix.1 notice) (by decide)

theorem DirectoryChange.isPrefix_of_ofRecord? {record : Record} {change : DirectoryChange}
    (reads : ofRecord? record = some change) :
    "/usr/bin/time".toList <+: record.text ∨ "cd".toList <+: record.text := by
  obtain ⟨operand, found, _⟩ := Option.map_eq_some_iff.1 reads
  unfold operand? at found
  cases timed : record.text.behindWord? "/usr/bin/time".toList with
  | some behind => exact .inl ⟨behind, (Text.behindWord?_eq_some.1 timed).1.symm⟩
  | none =>
    simp only [timed, Option.map_none, Option.getD_none] at found
    obtain ⟨behind, behindCd, _⟩ := Option.bind_eq_some_iff.1 found
    exact .inr ⟨behind, (Text.behindWord?_eq_some.1 behindCd).1.symm⟩

theorem DirectoryChange.not_isStepMarker {record : Record} {change : DirectoryChange}
    (reads : ofRecord? record = some change) : isStepMarker record.text = false := by
  rcases isPrefix_of_ofRecord? reads with timed | plain
  · exact isStepMarker_eq_false_of_isPrefix timed (by decide)
  · exact isStepMarker_eq_false_of_isPrefix plain (by decide)

theorem isBlank_eq_false_of_isPrefix {record : Record} {beginning : Text}
    (begins : beginning <+: record.text) (some_text : beginning ≠ []) : record.isBlank = false := by
  rw [Record.isBlank, List.isEmpty_eq_false_iff]
  rintro blank
  exact some_text (List.prefix_nil.1 (blank ▸ begins))

theorem isBlank_of_isResponseFileNotice {record : Record}
    (notice : isResponseFileNotice record.text = true) : record.isBlank = false :=
  isBlank_eq_false_of_isPrefix (List.isPrefixOf_iff_prefix.1 notice) (by decide)

theorem isBlank_of_ofRecord? {record : Record} {change : DirectoryChange}
    (reads : DirectoryChange.ofRecord? record = some change) : record.isBlank = false := by
  rcases DirectoryChange.isPrefix_of_ofRecord? reads with timed | plain
  · exact isBlank_eq_false_of_isPrefix timed (by decide)
  · exact isBlank_eq_false_of_isPrefix plain (by decide)

end MakeRules
