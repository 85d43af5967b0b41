import MakeRules.Proofs.Log.Append
import MakeRules.Proofs.Rule.OfStep
import MakeRules.Proofs.Translation.Rules

/-! Translations of logs behind which another goes on.

Contributions only ever add to the table that they find, so the translation of a log
whose steps are whole begins the translation of any log that it begins.
-/

set_option autoImplicit false

namespace MakeRules

theorem Contribution.linkedProducts_isPrefix_ofLink (table : RuleTable) (site : Site)
    (output : Text) (prerequisites : List Text) :
    table.linkedProducts <+: (ofLink table site output prerequisites).table.linkedProducts := by
  have registered := table.linkedProducts_register (Rule.ofLink site output prerequisites)
  simp only [ofLink]
  split
  · exact registered ▸ List.prefix_rfl
  · rw [← registered]
    exact RuleTable.linkedProducts_isPrefix_addLinkedProduct ..

section

variable (view : FileView) (file : Text) (table : RuleTable)

theorem Step.linkedProducts_isPrefix_contribute (step : Step) :
    table.linkedProducts <+: (step.contribute view file table).table.linkedProducts := by
  have adds := step.adds_contribute view file table
  generalize step.contribute view file table = added at adds ⊢
  cases adds with
  | leftOut | postLink => exact List.prefix_rfl
  | objects => exact (table.linkedProducts_registerAll _) ▸ List.prefix_rfl
  | unlisted | listed => exact Contribution.linkedProducts_isPrefix_ofLink ..

theorem Dispatch.linkedProducts_isPrefix_contribute (dispatch : Dispatch) :
    table.linkedProducts <+: (dispatch.contribute view file table).table.linkedProducts := by
  unfold contribute
  split
  · exact List.prefix_rfl
  · cases dispatch.outcome with
    | step found => exact found.linkedProducts_isPrefix_contribute view file table
    | _ => exact List.prefix_rfl

theorem linkedProducts_isPrefix_tableAfter (dispatches : List Dispatch) :
    table.linkedProducts <+: (tableAfter view file table dispatches).linkedProducts := by
  induction dispatches generalizing table with
  | nil => exact List.prefix_rfl
  | cons dispatch rest ih =>
    exact (dispatch.linkedProducts_isPrefix_contribute view file table).trans (ih _)

end

namespace Makefile

/-- The text in front of the aggregate rule. -/
def opening (makefile : Makefile) : Text :=
  (headerLines makefile.header makefile.aggregate.target ++
    makefile.entries.flatMap entryLines).flatMap (· ++ ['\n'])

/-- The text of the aggregate rule. -/
def closing (makefile : Makefile) : Text :=
  (ruleLines makefile.aggregate.target makefile.aggregate.prerequisites
    makefile.aggregate.recipe).flatMap (· ++ ['\n'])

theorem render_eq (makefile : Makefile) : makefile.render = makefile.opening ++ makefile.closing := by
  simp [render, lines, opening, closing]

theorem opening_isPrefix {first second : Makefile} (header : first.header = second.header)
    (goal : first.aggregate.target = second.aggregate.target)
    (entries : first.entries <+: second.entries) : first.opening <+: second.opening := by
  obtain ⟨later, entries⟩ := entries
  simp only [opening, header, goal, ← entries, List.flatMap_append, ← List.append_assoc]
  exact List.prefix_append ..

end Makefile

namespace Translation

variable (view : FileView) (options : TranslationOptions)

/-- A log that ends with a line feed, and in which no step looks for records behind it, is
translated in the same way whatever follows it: all that it gives comes first. -/
theorem isPrefix_ofText_append {first : Text} (ended : first.getLast? = some '\n')
    (whole : (Log.ofText first).Whole) (second : Text) :
    let alone := ofText view options first
    let both := ofText view options (first ++ second)
    alone.rules <+: both.rules ∧ alone.linkedProducts <+: both.linkedProducts ∧
      alone.diagnostics <+: both.diagnostics ∧
      alone.text = alone.makefile.opening ++ alone.makefile.closing ∧
      alone.makefile.opening <+: both.text := by
  intro alone both
  let before := (Log.ofText first).dispatch
  let behind := (Log.ofLines first.lines.length second.lines).dispatch
  have run : (Log.ofText (first ++ second)).dispatch = before ++ behind := by
    rw [Log.ofText_append ended, Log.dispatch_append whole]
  -- what is gathered from contributions to the first log comes first in the whole
  have gathered {α : Type} (gather : Contribution → List α) :
      (contributions view options.file {} before).flatMap gather <+:
        (contributions view options.file {} (Log.ofText (first ++ second)).dispatch).flatMap
          gather := by
    rw [run, contributions_append, List.flatMap_append]
    exact List.prefix_append ..
  have table : both.table = tableAfter view options.file alone.table behind := by
    have startTable : alone.table = _ := table_ofLog view options (Log.ofText first)
    have wholeTable : both.table = _ := table_ofLog view options (Log.ofText (first ++ second))
    rw [wholeTable, startTable, run, tableAfter_append]
  refine ⟨?_, ?_, gathered _, alone.makefile.render_eq, ?_⟩
  · rw [rules, rules, table, rules_tableAfter]
    exact List.prefix_append ..
  · rw [linkedProducts, linkedProducts, table]
    exact linkedProducts_isPrefix_tableAfter ..
  · have opening : alone.makefile.opening <+: both.makefile.opening :=
      Makefile.opening_isPrefix rfl rfl (gathered _)
    exact opening.trans ⟨_, both.makefile.render_eq.symm⟩

/-- A blank line stands for the missing command of a link, so nothing is looked for behind it. -/
theorem isPrefix_ofText_append_of_blank_command :
    let first := ("CompileC a.o a.c normal\n  cd /d\nUsing response file: r\n  clang a.c\n" ++
      "Ld app normal\n  cd /d\n\n").toList
    let second := "  ld -o app\nCompileC a.o b.c normal\n  cd /d\n  clang b.c\n".toList
    let view : FileView := ⟨"/".toList, fun _ => .error []⟩
    let alone := ofText view { capturedAt := [] } first
    let both := ofText view { capturedAt := [] } (first ++ second)
    first.getLast? = some '\n' ∧ (Log.ofText first).Whole ∧
      alone.rules <+: both.rules ∧ alone.linkedProducts <+: both.linkedProducts ∧
      alone.diagnostics <+: both.diagnostics ∧
      alone.text = alone.makefile.opening ++ alone.makefile.closing ∧
      alone.makefile.opening <+: both.text := by
  intro first second view alone both
  have ended : first.getLast? = some '\n' := by decide
  have whole : (Log.ofText first).Whole := by decide +kernel
  exact ⟨ended, whole, isPrefix_ofText_append view _ ended whole second⟩

end Translation

end MakeRules
