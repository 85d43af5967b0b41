import MakeRules.Proofs.Makefile.Invocation
import MakeRules.Proofs.Text.Lines
import MakeRules.Proofs.Translation.Entries

/-! Comments of a makefile, and lines that go on in the next one.

A line that ends in a backslash goes on in the line behind it, a comment too. The comment of
a record never does. A comment of the header does if and only if the text of the header that it
shows ends in a backslash; otherwise no line behind a comment becomes part of it.
-/

set_option autoImplicit false

namespace MakeRules

namespace Text

/-- The text ends in a backslash, so as a line it goes on in the next one. -/
def GoesOn (text : Text) : Prop :=
  text.getLast? = some '\\'

instance (text : Text) : Decidable text.GoesOn :=
  inferInstanceAs (Decidable (_ = _))

theorem goesOn_cons_of_ne_nil (c : Char) {text : Text} (some_char : text ≠ []) :
    GoesOn (c :: text) ↔ text.GoesOn := by
  obtain ⟨d, rest, rfl⟩ := List.exists_cons_of_ne_nil some_char
  rw [GoesOn, GoesOn, List.getLast?_cons_cons]

theorem goesOn_cons_of_ne {c : Char} (different : c ≠ '\\') (text : Text) :
    GoesOn (c :: text) ↔ text.GoesOn := by
  cases text with
  | nil => simp [GoesOn, different]
  | cons d rest => exact goesOn_cons_of_ne_nil c (List.cons_ne_nil d rest)

/-- Behind a text that does not go on, another one decides. -/
theorem goesOn_append {front : Text} (stops : ¬front.GoesOn) (text : Text) :
    GoesOn (front ++ text) ↔ text.GoesOn := by
  cases text with
  | nil => simp only [List.append_nil, iff_false_left stops]; exact nofun
  | cons c rest => rw [GoesOn, GoesOn, List.getLast?_append_of_ne_nil _ (List.cons_ne_nil c rest)]

theorem folded_ne_nil {text : Text} (some_char : text ≠ []) : text.folded ≠ [] := by
  fun_cases folded text with
  | case1 | case2 | case3 => exact List.cons_ne_nil _ _
  | case4 => exact absurd rfl some_char

theorem goesOn_folded_iff (text : Text) : text.folded.GoesOn ↔ text.GoesOn := by
  fun_induction folded text with
  | case1 rest ih =>
    rw [goesOn_cons_of_ne (by decide), ih, goesOn_cons_of_ne (by decide),
      goesOn_cons_of_ne (by decide)]
  | case2 rest ih => rw [goesOn_cons_of_ne (by decide), ih, goesOn_cons_of_ne (by decide)]
  | case3 c rest _ _ ih =>
    cases rest with
    | nil => rfl
    | cons d rest =>
      have more := List.cons_ne_nil d rest
      rw [goesOn_cons_of_ne_nil c (folded_ne_nil more), ih, goesOn_cons_of_ne_nil c more]
  | case4 => rfl

end Text

namespace Makefile

/-- Lines as they are read: one that goes on takes in the next. -/
def joined : List Text → List (List Text)
  | [] => []
  | line :: rest =>
    if line.GoesOn then (line :: (joined rest).headD []) :: (joined rest).tail
    else [line] :: joined rest

/-- A line that does not go on is the last of those that are read as one. -/
theorem joined_append_of_not_goesOn (before : List Text) {line : Text} (stops : ¬line.GoesOn)
    (after : List Text) :
    joined (before ++ line :: after) = joined (before ++ [line]) ++ joined after := by
  induction before with
  | nil => simp [joined, stops]
  | cons first before ih =>
    simp only [List.cons_append, joined, ih]
    split
    · -- what the first line takes in is not empty, so it is taken from the front
      obtain ⟨group, groups, shape⟩ : ∃ group groups, joined (before ++ [line]) = group :: groups := by
        cases before with
        | nil => exact ⟨[line], [], by simp [joined, stops]⟩
        | cons second before =>
          rw [List.cons_append, joined]
          split <;> exact ⟨_, _, rfl⟩
      rw [shape]
      rfl
    · rfl

/-- The lines that are written as comments: those of the header, and those of the entries. -/
def commentLines (makefile : Makefile) : List Text :=
  [title, capturedPrefix ++ makefile.header.capturedAt.oneLine,
    invocationPrefix ++ makefile.header.invocation.oneLine] ++ makefile.comments.map comment

theorem map_comment_sublist_entryLines (entries : List Entry) :
    ((entries.filterMap Entry.comment?).map comment).Sublist (entries.flatMap entryLines) := by
  induction entries with
  | nil => exact .slnil
  | cons entry rest ih =>
    cases entry with
    | comment text => exact ih.cons_cons _
    | rule rule => exact ih.trans (List.sublist_append_right _ _)

theorem commentLines_sublist (makefile : Makefile) :
    makefile.commentLines.Sublist makefile.lines := by
  have header : [title, capturedPrefix ++ makefile.header.capturedAt.oneLine,
      invocationPrefix ++ makefile.header.invocation.oneLine].Sublist
        (headerLines makefile.header makefile.aggregate.target) :=
    List.sublist_append_left _ [goalPrefix ++ makefile.aggregate.target, []]
  exact (header.append (map_comment_sublist_entryLines makefile.entries)).trans
    (List.sublist_append_left _ _)

/-- The backslashes at the end of a record are not written. -/
theorem not_goesOn_comment (text : Text) : ¬(comment text).GoesOn := by
  intro ends
  unfold comment at ends
  generalize dropped : text.oneLine.dropEndWhile (· == '\\') = body at ends
  dsimp only at ends
  split at ends
  · cases ends
  · next some_char =>
    have body_ends : body.GoesOn := by
      rw [List.isEmpty_iff] at some_char
      rwa [Text.goesOn_cons_of_ne (by decide), Text.goesOn_cons_of_ne (by decide)] at ends
    rw [← dropped] at body_ends
    cases Text.not_drops_of_mem_getLast?_dropEndWhile body_ends

theorem lf_not_mem_comment (text : Text) : '\n' ∉ comment text := by
  have body : '\n' ∉ text.oneLine.dropEndWhile (· == '\\') := by
    intro member
    rw [Text.oneLine_eq_folded, Text.dropEndWhile, List.mem_reverse] at member
    have kept := List.dropWhile_subset _ member
    exact Text.lf_not_mem_folded text (List.mem_reverse.1 kept)
  unfold comment
  dsimp only
  split
  · decide
  · simpa using body

theorem lf_not_mem_append_oneLine {beginning : Text} (whole : '\n' ∉ beginning) (text : Text) :
    '\n' ∉ beginning ++ text.oneLine := by
  rw [List.mem_append, not_or, Text.oneLine_eq_folded]
  exact ⟨whole, Text.lf_not_mem_folded text⟩

theorem lf_not_mem_of_mem_commentLines {makefile : Makefile} {line : Text}
    (member : line ∈ makefile.commentLines) : '\n' ∉ line := by
  simp only [commentLines, List.cons_append, List.nil_append, List.mem_cons] at member
  obtain rfl | rfl | rfl | member := member
  · decide
  · exact lf_not_mem_append_oneLine (by decide) _
  · exact lf_not_mem_append_oneLine (by decide) _
  · obtain ⟨text, _, rfl⟩ := List.mem_map.1 member
    exact lf_not_mem_comment text

/-- The line shows a text behind a beginning of its own, and goes on if the text does. -/
theorem goesOn_headerLine_iff (beginning text : Text) (stops : ¬beginning.GoesOn) :
    Text.GoesOn (beginning ++ text.oneLine) ↔ text.GoesOn := by
  rw [Text.goesOn_append stops, Text.oneLine_eq_folded, Text.goesOn_folded_iff]

theorem forall_commentLines_not_goesOn_iff (makefile : Makefile) :
    (∀ line ∈ makefile.commentLines, ¬line.GoesOn) ↔
      ¬makefile.header.capturedAt.GoesOn ∧ ¬makefile.header.invocation.GoesOn := by
  have titleStops : ¬title.GoesOn := by decide
  have captured := goesOn_headerLine_iff capturedPrefix makefile.header.capturedAt (by decide)
  have invocation := goesOn_headerLine_iff invocationPrefix makefile.header.invocation
    (by decide)
  have records : ∀ line ∈ makefile.comments.map comment, ¬line.GoesOn := by
    intro line member
    obtain ⟨text, _, rfl⟩ := List.mem_map.1 member
    exact not_goesOn_comment text
  constructor
  · intro stop
    rw [← captured, ← invocation]
    exact ⟨stop _ (by simp [commentLines]), stop _ (by simp [commentLines])⟩
  · rintro ⟨capturedStops, invocationStops⟩ line member
    rw [← captured] at capturedStops
    rw [← invocation] at invocationStops
    simp only [commentLines, List.cons_append, List.nil_append, List.mem_cons] at member
    obtain rfl | rfl | rfl | member := member
    · exact titleStops
    · exact capturedStops
    · exact invocationStops
    · exact records line member

/-- Comments are lines of the makefile, each on one line. That of a record never goes on in the
next line. Those of the header go on if and only if one of its texts ends in a backslash. If none
does, what is written behind a comment is read as if the comment were not there. -/
theorem comments_stop_iff (makefile : Makefile) :
    makefile.commentLines.Sublist makefile.lines ∧
      (∀ line ∈ makefile.commentLines, '\n' ∉ line) ∧
      (∀ text ∈ makefile.comments, ¬(comment text).GoesOn) ∧
      ((∀ line ∈ makefile.commentLines, ¬line.GoesOn) ↔
        ¬makefile.header.capturedAt.GoesOn ∧ ¬makefile.header.invocation.GoesOn) ∧
      (¬makefile.header.capturedAt.GoesOn → ¬makefile.header.invocation.GoesOn →
        ∀ before line after, makefile.lines = before ++ line :: after →
          line ∈ makefile.commentLines →
            joined makefile.lines = joined (before ++ [line]) ++ joined after) := by
  refine ⟨commentLines_sublist makefile, fun _ => lf_not_mem_of_mem_commentLines,
    fun text _ => not_goesOn_comment text, forall_commentLines_not_goesOn_iff makefile, ?_⟩
  intro captured invocation before line after split member
  have stop := (forall_commentLines_not_goesOn_iff makefile).2 ⟨captured, invocation⟩ line member
  rw [split]
  exact joined_append_of_not_goesOn before stop after

/-- An invocation that ends in a backslash takes the default goal into its comment. -/
theorem comments_stop_iff_of_backslash :
    let makefile : Makefile := {
      header := ⟨"2026-01-02T03:04:05.000Z".toList, "xcodebuild \\".toList⟩
      entries := [.comment "note \\".toList]
      aggregate := ⟨"main".toList, [], []⟩ }
    (∃ line ∈ makefile.commentLines, line.GoesOn) ∧
      ¬(comment "note \\".toList).GoesOn ∧
      ["# invocation: xcodebuild \\".toList, ".DEFAULT_GOAL := main".toList] ∈
        joined makefile.lines := by
  intro makefile
  obtain ⟨-, -, records, stop_iff, -⟩ := comments_stop_iff makefile
  have ends : makefile.header.invocation.GoesOn := by decide
  have some_goesOn : ∃ line ∈ makefile.commentLines, line.GoesOn := by
    by_contra none
    push Not at none
    exact (stop_iff.1 none).2 ends
  exact ⟨some_goesOn, records _ (by decide), by decide⟩

end Makefile

end MakeRules
