import MakeRules.Translation

/-! The two lists that the entries of a makefile hold: its comments and its rules. -/

set_option autoImplicit false

namespace MakeRules

namespace Makefile

def Entry.comment? : Entry → Option Text
  | .comment text => some text
  | .rule _ => none

def Entry.rule? : Entry → Option Rule
  | .comment _ => none
  | .rule written => some written

/-- The comments between header and aggregate rule, in order. -/
def comments (makefile : Makefile) : List Text :=
  makefile.entries.filterMap Entry.comment?

/-- The rules between header and aggregate rule, in order. -/
def rules (makefile : Makefile) : List Rule :=
  makefile.entries.filterMap Entry.rule?

theorem mem_rules_iff {makefile : Makefile} {rule : Rule} :
    rule ∈ makefile.rules ↔ ∃ entry ∈ makefile.entries, entry.rule? = some rule :=
  List.mem_filterMap

end Makefile

namespace Contribution

theorem filterMap_comment?_entries (added : Contribution) :
    added.entries.filterMap Makefile.Entry.comment? = added.echo.toList := by
  cases echo : added.echo <;>
    simp [entries, echo, List.filterMap_map, Function.comp_def, Makefile.Entry.comment?]

theorem filterMap_rule?_entries (added : Contribution) :
    added.entries.filterMap Makefile.Entry.rule? = added.rules := by
  cases echo : added.echo <;>
    simp [entries, echo, List.filterMap_cons, List.filterMap_map, Function.comp_def,
      Makefile.Entry.rule?]

end Contribution

namespace Translation

variable (options : TranslationOptions) (added : List Contribution)

theorem comments_ofContributions :
    (ofContributions options added).makefile.comments = added.flatMap (·.echo.toList) := by
  simp only [ofContributions, Makefile.comments, List.filterMap_flatMap,
    Contribution.filterMap_comment?_entries]

theorem rules_makefile_ofContributions :
    (ofContributions options added).makefile.rules = added.flatMap (·.rules) := by
  simp only [ofContributions, Makefile.rules, List.filterMap_flatMap,
    Contribution.filterMap_rule?_entries]

end Translation

end MakeRules
