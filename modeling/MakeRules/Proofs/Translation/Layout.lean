import MakeRules.Proofs.Log.Append
import MakeRules.Proofs.Translation.Records
import Mathlib.Data.List.DropRight

/-! What the layout of a log does to its translation.

Records are trimmed, so line breaks of either kind and blanks around a line leave no trace. A step
that looks for its directory change or its command and meets a blank record ends as it does where
the log ends. So blank lines behind a log leave no trace either.
-/

set_option autoImplicit false

namespace MakeRules

/-- The lines of a text without the blanks around them, up to the last one that is not blank. -/
def Text.content (text : Text) : List Text :=
  (text.linePieces.map trim).rdropWhile fun line => line.isEmpty

/-- The piece behind a last line break is blank, so it makes no difference that it is no line. -/
theorem Text.content_eq (text : Text) :
    text.content = (text.lines.map trim).rdropWhile fun line => line.isEmpty := by
  unfold content lines
  split
  · next ended =>
    obtain ⟨front, pieces⟩ := List.getLast?_eq_some_iff.1 ended
    rw [pieces, List.dropLast_concat, List.map_append, List.map_singleton,
      List.rdropWhile_concat_pos _ _ _ rfl]
  · rfl

theorem Text.exists_blank_lines (text : Text) :
    ∃ blanks : List Text, (∀ line ∈ blanks, line = []) ∧
      text.lines.map trim = text.content ++ blanks := by
  refine ⟨(text.lines.map trim).rtakeWhile fun line => line.isEmpty, fun line member => ?_, ?_⟩
  · exact List.isEmpty_iff.1 (List.mem_rtakeWhile_imp member)
  · rw [content_eq, List.rdropWhile_append_rtakeWhile]

section

variable {blanks : Log} (blank : ∀ record ∈ blanks, record.isBlank = true)

include blank

/-- Where the search for a command comes to a blank record, there is none, as at the end. -/
theorem Site.read_append_of_isBlank (kind : StepKind) (marker : Record) (behind : Log) :
    read kind marker (behind ++ blanks) = read kind marker behind := by
  cases within : meetsEnd kind behind with
  | false => exact read_append within blanks
  | true =>
    cases behind with
    | nil =>
      cases blanks with
      | nil => rfl
      | cons first others =>
        -- a blank record changes no directory
        have unread : DirectoryChange.ofRecord? first = none := by
          cases reads : DirectoryChange.ofRecord? first with
          | none => rfl
          | some change =>
            cases (blank first List.mem_cons_self).symm.trans (isBlank_of_ofRecord? reads)
        simp [read, unread]
    | cons record rest =>
      obtain ⟨entered, passed⟩ := Bool.and_eq_true_iff.1 within
      obtain ⟨change, found⟩ := Option.isSome_iff_exists.1 entered
      -- all of the log is passed, so a command would be among the blank records
      have all := List.all_eq_true.1 passed
      have alone : rest.dropWhile (kind.passes ·.text) = [] := List.dropWhile_eq_nil_iff.2 all
      have both : (rest ++ blanks).dropWhile (kind.passes ·.text) =
          blanks.dropWhile (kind.passes ·.text) := List.dropWhile_append_of_pos all
      simp only [read, List.cons_append, found, alone, both]
      cases others : blanks.dropWhile (kind.passes ·.text) with
      | nil => rfl
      | cons command after =>
        have member : command ∈ blanks :=
          (List.dropWhile_suffix _).subset (others ▸ List.mem_cons_self)
        have refused : kind.acceptsCommand command.text = false := by
          have empty : command.text.isEmpty = true := blank command member
          simp [StepKind.acceptsCommand, empty]
        simp [refused]

theorem classify_append_of_isBlank (record : Record) (behind : Log) :
    classify record (behind ++ blanks) = classify record behind := by
  simp only [classify, Step.read, Site.read_append_of_isBlank blank]

namespace Log

theorem run_of_isBlank : run blanks = [] := by
  induction blanks with
  | nil => rfl
  | cons record rest ih =>
    obtain ⟨first, later⟩ := List.forall_mem_cons.1 blank
    rw [run_cons_of_isBlank first, ih later]

/-- Blank records behind a log are not dispatched, and change nothing of what is. -/
theorem run_append_of_isBlank (log : Log) : run (log ++ blanks) = run log := by
  induction log using dispatch_induction with
  | nil => exact run_of_isBlank blank
  | cons record rest ih =>
    rw [List.cons_append]
    by_cases empty : record.isBlank = true
    · rw [classify_of_isBlank empty] at ih
      rw [run_cons_of_isBlank empty, run_cons_of_isBlank empty]
      exact ih
    · rw [Bool.not_eq_true] at empty
      -- what the record takes lies within the log, so the blanks are left for the rest
      have within := (taken_classify_isPrefix record rest).length_le
      rw [run_cons empty, run_cons empty, classify_append_of_isBlank blank,
        List.drop_append_of_le_length within, ih]

end Log

end

namespace Log

/-- Records with given texts, on lines that stand behind so many others. -/
def numbered (before : Nat) (texts : List Text) : Log :=
  (texts.zipIdx (before + 1)).map fun (text, line) => ⟨text, .ofNat line⟩

theorem ofLines_eq_numbered (before : Nat) (lines : List Text) :
    ofLines before lines = numbered before (lines.map Text.trim) := by
  rw [ofLines, numbered, List.zipIdx_map, List.map_map]
  rfl

theorem isBlank_of_mem_numbered {before : Nat} {texts : List Text}
    (blank : ∀ text ∈ texts, text = []) : ∀ record ∈ numbered before texts, record.isBlank = true := by
  intro record member
  obtain ⟨⟨text, number⟩, among, rfl⟩ := List.mem_map.1 member
  exact List.isEmpty_iff.2 (blank text (List.fst_mem_of_mem_zipIdx among))

/-- What is dispatched of a text depends on its content alone. -/
theorem run_ofText (text : Text) : (ofText text).run = (numbered 0 text.content).run := by
  obtain ⟨blanks, blank, lines⟩ := text.exists_blank_lines
  have split : ofText text =
      numbered 0 text.content ++ numbered text.content.length blanks := by
    rw [ofText, ofLines_eq_numbered, lines, numbered, numbered, numbered, List.zipIdx_append,
      List.map_append, Nat.zero_add, Nat.add_comm]
  rw [split, run_append_of_isBlank (isBlank_of_mem_numbered blank)]

end Log

namespace Translation

/-- Two logs with the same lines, but for blanks around them and blank lines behind them, have the
same translation. -/
theorem ofText_eq_of_content_eq (view : FileView) (options : TranslationOptions)
    {first second : Text} (same : first.content = second.content) :
    ofText view options first = ofText view options second := by
  have run : (Log.ofText first).run = (Log.ofText second).run := by
    rw [Log.run_ofText, Log.run_ofText, same]
  calc ofText view options first
      = ofContributions options (contributions view options.file {} (Log.ofText first).run) :=
        ofLog_eq_run view options (Log.ofText first)
    _ = ofContributions options (contributions view options.file {} (Log.ofText second).run) := by
        rw [run]
    _ = ofText view options second := (ofLog_eq_run view options (Log.ofText second)).symm

/-- The link has no command, be it that the log ends before it or that a blank line stands there. -/
theorem ofText_eq_of_content_eq_of_missing_command :
    let first : Text := "CompileC a.o a.c\ncd /d\n\ncc a.c\nLd app normal\n cd /d".toList
    let second : Text :=
      " CompileC a.o a.c\r\n\tcd /d \r\n \r\ncc a.c\r\nLd app normal\r\n  cd /d\n\n\t\n".toList
    let view : FileView := ⟨"/".toList, fun _ => .error []⟩
    let options : TranslationOptions := { capturedAt := [] }
    first.content = second.content ∧ ofText view options first = ofText view options second ∧
      (ofText view options second).diagnostics.map (·.code) = [.missingCommand] := by
  intro first second view options
  have same : first.content = second.content := by decide +kernel
  have whole := ofText_eq_of_content_eq view options same
  exact ⟨same, whole, by rw [← whole]; decide +kernel⟩

end Translation

end MakeRules
