import MakeRules.Proofs.Makefile.Comments

/-! The lines of a makefile, as they are read back from its text.

The header and the comments are folded to one line each. A rule is not, so it stands on three
lines if and only if no text of it holds a line feed.
-/

set_option autoImplicit false

namespace MakeRules

/-- No text that is written for the rule holds a line feed. -/
structure Rule.IsOnLines (rule : Rule) : Prop where
  target : '\n' ∉ rule.target
  prerequisites : ∀ prerequisite ∈ rule.prerequisites, '\n' ∉ prerequisite
  recipe : '\n' ∉ rule.recipe

namespace Makefile

theorem mem_intercalate_space_iff {c : Char} (other : c ≠ ' ') {words : List Text} :
    c ∈ [' '].intercalate words ↔ ∃ word ∈ words, c ∈ word := by
  induction words with
  | nil => simp
  | cons word words ih =>
    cases words with
    | nil => simp
    | cons next words =>
      rw [List.intercalate_cons_cons, List.mem_append, ih]
      simp [other]

theorem lf_not_mem_dependencyLine_iff {target : Text} {prerequisites : List Text} :
    '\n' ∉ dependencyLine target prerequisites ↔
      '\n' ∉ target ∧ ∀ prerequisite ∈ prerequisites, '\n' ∉ prerequisite := by
  unfold dependencyLine
  split
  · next none => simp [List.isEmpty_iff.1 none]
  · simp [mem_intercalate_space_iff]

/-- The lines of an entry, the two that a rule is written on cut further. -/
def cutLines (cut : Text → List Text) : Entry → List Text
  | .comment text => [comment text]
  | .rule rule =>
    cut (dependencyLine rule.target rule.prerequisites) ++ cut ('\t' :: rule.recipe) ++ [[]]

theorem cutLines_singleton (entry : Entry) : cutLines (fun line => [line]) entry = entryLines entry := by
  cases entry <;> rfl

theorem flatMap_splitOn_entryLines (entry : Entry) :
    (entryLines entry).flatMap (Text.splitOn '\n') = cutLines (Text.splitOn '\n') entry := by
  cases entry with
  | comment text =>
    simp [entryLines, cutLines, Text.splitOn_of_not_mem (lf_not_mem_comment text)]
  | rule rule => simp [entryLines, ruleLines, cutLines]

theorem forall_entryLines_iff (entry : Entry) :
    (∀ line ∈ entryLines entry, '\n' ∉ line) ↔ ∀ rule, entry.rule? = some rule → rule.IsOnLines := by
  cases entry with
  | comment text => simpa [entryLines, Entry.rule?] using lf_not_mem_comment text
  | rule rule =>
    have parts : (∀ line ∈ entryLines (.rule rule), '\n' ∉ line) ↔
        '\n' ∉ dependencyLine rule.target rule.prerequisites ∧ '\n' ∉ rule.recipe := by
      simp [entryLines, ruleLines]
    rw [parts, lf_not_mem_dependencyLine_iff]
    constructor
    · rintro ⟨⟨target, prerequisites⟩, recipe⟩ _ same
      obtain rfl := Option.some.inj same
      exact ⟨target, prerequisites, recipe⟩
    · intro onLines
      have written := onLines rule rfl
      exact ⟨⟨written.target, written.prerequisites⟩, written.recipe⟩

theorem lf_not_mem_of_mem_headerLines {header : Header} {goal line : Text} (goalLine : '\n' ∉ goal)
    (member : line ∈ headerLines header goal) : '\n' ∉ line := by
  simp only [headerLines, List.mem_cons, List.not_mem_nil, or_false] at member
  obtain rfl | rfl | rfl | rfl | rfl := member
  · decide
  · exact lf_not_mem_append_oneLine (by decide) _
  · exact lf_not_mem_append_oneLine (by decide) _
  · rw [List.mem_append, not_or]
    exact ⟨by decide, goalLine⟩
  · exact List.not_mem_nil

theorem getLast?_render (makefile : Makefile) : makefile.render.getLast? = some '\n' := by
  apply Text.getLast?_flatMap_ended
  simp [lines, headerLines]

/-- The dependency line of a rule stands at the beginning of a line. -/
theorem exists_render_eq {makefile : Makefile} {rule : Rule} (shown : rule ∈ makefile.rules) :
    ∃ before behind, makefile.render =
        before ++ (dependencyLine rule.target rule.prerequisites ++ '\n' :: behind) ∧
      before.getLast? = some '\n' := by
  obtain ⟨entry, among, same⟩ := mem_rules_iff.1 shown
  obtain rfl : entry = .rule rule := by
    cases entry with
    | comment text => cases same
    | rule other => rw [Option.some.inj same]
  obtain ⟨front, back, entries⟩ := List.append_of_mem among
  obtain ⟨later, lines⟩ : ∃ later, makefile.lines =
      headerLines makefile.header makefile.aggregate.target ++ front.flatMap entryLines ++
        dependencyLine rule.target rule.prerequisites :: later := by
    simp only [lines, entries, List.flatMap_append, List.flatMap_cons, entryLines, ruleLines,
      List.append_assoc, List.cons_append, List.append_cancel_left_eq]
    exact ⟨_, rfl⟩
  refine ⟨(headerLines makefile.header makefile.aggregate.target ++
      front.flatMap entryLines).flatMap (· ++ ['\n']), later.flatMap (· ++ ['\n']), ?_,
    Text.getLast?_flatMap_ended (by simp [headerLines])⟩
  rw [render, lines, List.flatMap_append, List.flatMap_cons, List.append_assoc,
    List.singleton_append]

/-- The lines of the aggregate rule. -/
abbrev aggregateLines (makefile : Makefile) : List Text :=
  ruleLines makefile.aggregate.target makefile.aggregate.prerequisites makefile.aggregate.recipe

section

variable {makefile : Makefile} (closed : ∀ line ∈ makefile.aggregateLines, '\n' ∉ line)

include closed

/-- The header names the target of the aggregate rule. -/
theorem lf_not_mem_headerLines :
    ∀ line ∈ headerLines makefile.header makefile.aggregate.target, '\n' ∉ line := by
  have first := closed _ List.mem_cons_self
  exact fun _ => lf_not_mem_of_mem_headerLines (lf_not_mem_dependencyLine_iff.1 first).1

/-- Only the lines of a rule are cut at line feeds of their own. -/
theorem splitOn_render : Text.splitOn '\n' makefile.render =
    headerLines makefile.header makefile.aggregate.target ++
      makefile.entries.flatMap (cutLines (Text.splitOn '\n')) ++ makefile.aggregateLines ++ [[]] := by
  rw [render, Text.splitOn_flatMap_ended, lines, List.flatMap_append, List.flatMap_append,
    Text.flatMap_splitOn_eq_self (lf_not_mem_headerLines closed),
    Text.flatMap_splitOn_eq_self closed, List.flatMap_assoc]
  simp only [flatMap_splitOn_entryLines]

theorem splitOn_render_eq_iff : Text.splitOn '\n' makefile.render =
      headerLines makefile.header makefile.aggregate.target ++
        makefile.entries.flatMap (cutLines fun line => [line]) ++ makefile.aggregateLines ++ [[]] ↔
    ∀ rule ∈ makefile.rules, rule.IsOnLines := by
  have shown : headerLines makefile.header makefile.aggregate.target ++
      makefile.entries.flatMap (cutLines fun line => [line]) ++ makefile.aggregateLines =
        makefile.lines := by
    simp only [lines, funext cutLines_singleton]
  have entries : (∀ line ∈ makefile.entries.flatMap entryLines, '\n' ∉ line) ↔
      ∀ rule ∈ makefile.rules, rule.IsOnLines := by
    rw [List.forall_mem_flatMap]
    simp only [forall_entryLines_iff, mem_rules_iff]
    constructor
    · rintro each rule ⟨entry, among, same⟩
      exact each entry among rule same
    · intro each entry among rule same
      exact each rule ⟨entry, among, same⟩
  rw [shown, render, Text.splitOn_flatMap_ended_eq_iff, lines, List.forall_mem_append,
    List.forall_mem_append, and_iff_left closed, and_iff_right (lf_not_mem_headerLines closed)]
  exact entries

end

end Makefile

end MakeRules
