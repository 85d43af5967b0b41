import MakeRules.Proofs.Makefile.Dependencies
import MakeRules.Proofs.Translation.Recipes

/-! What make reads of the dependency lines of a translation.

Targets and prerequisites are written for make as a whole, so the paths are known. The escaper
guards dollars, ampersands and spaces, but not all that make looks at: a `#` in a path begins a
comment unless it happens to stand behind a backslash, and a colon before a tab ends the target.
-/

set_option autoImplicit false

namespace MakeRules

open Escape

theorem map_makeTarget_map_ofMakeTarget {written : List Text}
    (escaped : ∀ token ∈ written, ∃ path, token = makeTarget path) :
    (written.map ofMakeTarget).map makeTarget = written := by
  have same : ∀ token ∈ written, (makeTarget ∘ ofMakeTarget) token = id token := by
    intro token member
    obtain ⟨path, rfl⟩ := escaped token member
    exact congrArg makeTarget (ofMakeTarget_makeTarget path)
  rw [List.map_map, List.map_congr_left same, List.map_id]

/-- The texts of a rule name paths. -/
theorem Step.Asks.names_paths {view : FileView} {step : Step} {site : Site} {rule : Rule}
    (asks : step.Asks view site rule) :
    rule.target = makeTarget (ofMakeTarget rule.target) ∧
      rule.prerequisites = (rule.prerequisites.map ofMakeTarget).map makeTarget := by
  cases asks with
  | object => simp [Rule.ofObject, ofMakeTarget_makeTarget]
  | output _ _ escaped =>
    refine ⟨?_, (map_makeTarget_map_ofMakeTarget escaped).symm⟩
    rw [Rule.ofLink, ofMakeTarget_makeTarget]

namespace Translation

/-- The targets and prerequisites of the rules are the written forms of paths, and the dependency
line of a rule stands at the beginning of a line. It is read as it is meant if and only if no path
of it holds a line feed or a `#` without a backslash before it, and that of its target no colon
before a tab. -/
theorem dependency_lines_read_iff (view : FileView) (options : TranslationOptions) (text : Text)
    {rule : Rule} (shown : rule ∈ (ofText view options text).rules) :
    let path := ofMakeTarget rule.target
    let paths := rule.prerequisites.map ofMakeTarget
    let line := Makefile.dependencyLine rule.target rule.prerequisites
    rule.target = makeTarget path ∧ rule.prerequisites = paths.map makeTarget ∧
      ∃ before behind,
        (ofText view options text).text = before ++ (line ++ '\n' :: behind) ∧
        before.getLast? = some '\n' ∧
        (Makefile.IsRead rule (line ++ '\n' :: behind) ↔
          (∀ named ∈ path :: paths, '\n' ∉ named ∧ named.HashesGuarded) ∧
            ¬[':', '\t'] <:+: path) := by
  intro path paths line
  rw [← rules_makefile_ofText] at shown
  obtain ⟨_, _, _, _, _, _, asks⟩ := exists_asks_of_mem_rules shown
  obtain ⟨target, prerequisites⟩ := asks.names_paths
  obtain ⟨before, behind, whole, ends⟩ := Makefile.exists_render_eq shown
  exact ⟨target, prerequisites, before, behind, whole, ends,
    Makefile.isRead_iff target prerequisites behind⟩

/-- A `#` in the name of an object begins a comment, and there is no target left. -/
theorem dependency_lines_read_iff_of_hash :
    let view : FileView := ⟨"/".toList, fun _ => .error []⟩
    let text := "CompileC a#b.o a.c normal\n    cd /d\n    clang -c a.c -o a#b.o\n".toList
    let rule : Rule := ⟨"a#b.o".toList, ["a.c".toList], "/d".toList,
      "cd /d && clang -c a.c -o a#b.o && touch a\\#b.o".toList⟩
    rule ∈ (ofText view { capturedAt := [] } text).rules ∧
      ∃ before behind,
        (ofText view { capturedAt := [] } text).text =
            before ++ ("a#b.o: a.c".toList ++ '\n' :: behind) ∧
          Makefile.readLine ("a#b.o: a.c".toList ++ '\n' :: behind) = "a".toList ∧
          ¬Makefile.IsRead rule ("a#b.o: a.c".toList ++ '\n' :: behind) := by
  intro view text rule
  have shown : rule ∈ (ofText view { capturedAt := [] } text).rules := by decide +kernel
  obtain ⟨-, -, before, behind, whole, -, read_iff⟩ :=
    dependency_lines_read_iff view { capturedAt := [] } text shown
  refine ⟨shown, before, behind, whole, ?_, fun read => ?_⟩
  · rw [Makefile.readLine_append (by decide)]
    decide
  · have guarded := ((read_iff.1 read).1 _ List.mem_cons_self).2
    exact absurd (guarded "a".toList "b.o".toList (by decide)) (by decide)

end Translation

end MakeRules
