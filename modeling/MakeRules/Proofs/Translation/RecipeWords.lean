import MakeRules.Proofs.Escape.ShellWords
import MakeRules.Proofs.Translation.Recipes

/-! The words of recipes, as make hands them to the shell.

A recipe enters a directory, and that of an object touches the object last. Directory and object
are written as shell words, so each is what the shell reads if and only if it is read back. The
directory is not if it ends in a backslash, which guards the space behind it.
-/

set_option autoImplicit false

namespace MakeRules

open Escape

theorem wordValues_append_space {c : Char} {word : Text} (bare : isWordBreak c = false)
    (rest : Text) (reads : Lexeme.read .bare (c :: word ++ ' ' :: rest) = ⟨c :: word, c :: word⟩) :
    wordValues (c :: word ++ ' ' :: rest) = (c :: word) :: wordValues rest := by
  have starts : ∀ d ∈ (c :: word).head?, isWordBreak d = false :=
    fun d first => Option.some.inj first ▸ bare
  rw [wordValues_append (List.cons_ne_nil c word) starts reads, wordValues_cons_of_isWordBreak rfl]

theorem wordValues_cd (rest : Text) :
    wordValues ("cd ".toList ++ rest) = "cd".toList :: wordValues rest :=
  @wordValues_append_space 'c' ['d'] rfl rest rfl

theorem wordValues_and (rest : Text) :
    wordValues ("&& ".toList ++ rest) = "&&".toList :: wordValues rest :=
  @wordValues_append_space '&' ['&'] rfl rest rfl

theorem wordValues_space_and (rest : Text) :
    wordValues (" && ".toList ++ rest) = "&&".toList :: wordValues rest :=
  (wordValues_cons_of_isWordBreak rfl _).trans (wordValues_and rest)

theorem wordValues_touch (rest : Text) :
    wordValues ("touch ".toList ++ rest) = "touch".toList :: wordValues rest :=
  @wordValues_append_space 't' "ouch".toList rfl rest rfl

/-- What stands behind a space is read apart from the text: no quote is open at its end, and no
backslash there guards the space. -/
def StandsAlone (text : Text) : Prop :=
  ∀ rest, wordValues (text ++ ' ' :: rest) = wordValues text ++ wordValues rest

/-- Guarded words with spaces between them, as a log shows a command. -/
theorem standsAlone_intercalate_guarded (words : List Text)
    (some_text : ∀ word ∈ words, word ≠ []) :
    StandsAlone ([' '].intercalate (words.map guarded)) := by
  intro rest
  rw [wordValues_intercalate_guarded words some_text]
  induction words with
  | nil => exact wordValues_cons_of_isWordBreak rfl rest
  | cons word words ih =>
    have first := some_text word List.mem_cons_self
    have later := ih fun other member => some_text other (List.mem_cons_of_mem _ member)
    cases words with
    | nil =>
      have shape : [' '].intercalate ([word].map guarded) = guarded word := by
        simp [List.intercalate]
      rw [shape, wordValues_guarded_append first (by simp [isWordBreak]),
        wordValues_cons_of_isWordBreak rfl]
      rfl
    | cons next words =>
      have shape : [' '].intercalate ((word :: next :: words).map guarded) =
          guarded word ++ ' ' :: [' '].intercalate ((next :: words).map guarded) := by
        simp [List.intercalate]
      rw [shape, List.append_assoc, List.cons_append,
        wordValues_guarded_append first (by simp [isWordBreak]), wordValues_cons_of_isWordBreak rfl,
        later]
      rfl

theorem Site.shellText_append (site : Site) (command more : Text) :
    site.shellText (command ++ more) = site.shellText command ++ more := by
  simp [shellText]

theorem take_wordValues_shellText_iff (site : Site) (command : Text) :
    let directory := site.change.directory
    (wordValues (site.shellText command)).take 2 = ["cd".toList, directory] ↔
      directory ≠ [] ∧ ReadsBack directory ∧ ¬directory.GoesOn := by
  intro directory
  have entered : wordValues (site.shellText command) =
      "cd".toList :: wordValues (shell directory ++ (" && ".toList ++ command)) := by
    rw [Site.shellText, List.append_assoc, List.append_assoc, wordValues_cd]
  have second : (wordValues (site.shellText command)).take 2 = ["cd".toList, directory] ↔
      (wordValues (shell directory ++ (" && ".toList ++ command))).head? = some directory := by
    rw [entered]
    cases wordValues (shell directory ++ (" && ".toList ++ command)) <;> simp
  rw [second]
  by_cases nothing : directory = []
  · -- without a directory the word behind `cd` is the `&&`
    rw [nothing, shell_nil, List.nil_append, wordValues_space_and]
    simp
  · have follows : ∃ rest, " && ".toList ++ command = ' ' :: '&' :: rest := ⟨_, rfl⟩
    rw [head?_wordValues_shell_append_iff (.inr follows) nothing]
    simp [nothing]

theorem wordValues_shellText {site : Site} (some_char : site.change.directory ≠ [])
    (readsBack : ReadsBack site.change.directory) (stops : ¬site.change.directory.GoesOn)
    (command : Text) :
    wordValues (site.shellText command) =
      ["cd".toList, site.change.directory, "&&".toList] ++ wordValues command := by
  obtain ⟨c, rest, directory⟩ := List.exists_cons_of_ne_nil some_char
  have tab : c ≠ '\t' := (readsBack.bare c (by simp [directory])).1
  have next_space : ∀ d ∈ (" && ".toList ++ command).head?, d = ' ' :=
    fun d first => (Option.some.inj first).symm
  have reads := readsBack.read_shell_append next_space fun goesOn => absurd goesOn stops
  have starts : ∀ d ∈ (shell site.change.directory).head?, isWordBreak d = false := by
    rw [directory]
    exact isWordBreak_of_head?_shell tab
  rw [Site.shellText, List.append_assoc, List.append_assoc, wordValues_cd,
    wordValues_append (shell_ne_nil some_char) starts reads, wordValues_space_and]
  rfl

theorem StandsAlone.wordValues_touch_iff {command : Text} (alone : StandsAlone command)
    {site : Site} (some_char : site.change.directory ≠ [])
    (readsBack : ReadsBack site.change.directory)
    (stops : ¬site.change.directory.GoesOn) (object : Text) :
    wordValues (site.shellText command ++ " && ".toList ++ ("touch ".toList ++ shell object)) =
        ["cd".toList, site.change.directory, "&&".toList] ++ wordValues command ++
          ["&&".toList, "touch".toList, object] ↔
      object ≠ [] ∧ ReadsBack object := by
  have behind : wordValues (command ++ (" && ".toList ++ ("touch ".toList ++ shell object))) =
      wordValues command ++ "&&".toList :: "touch".toList :: wordValues (shell object) := by
    rw [← wordValues_touch, ← wordValues_and]
    exact alone _
  rw [List.append_assoc, ← Site.shellText_append, wordValues_shellText some_char readsBack stops,
    behind, List.append_assoc, List.append_cancel_left_eq, List.append_cancel_left_eq,
    List.cons_eq_cons, and_iff_right rfl, List.cons_eq_cons, and_iff_right rfl,
    wordValues_shell_eq_iff]

namespace Translation

/-- A path is the one word that is read of its place in a recipe if and only if it is read back.
So the word behind `cd` is the directory of a rule if and only if the directory is read back and
does not end in a backslash. Where it is, and the command stands alone, the word behind `touch`
is the object if and only if that is read back. -/
theorem recipe_words_iff (view : FileView) (options : TranslationOptions) (text : Text) :
    (∀ path, wordValues (ofDollar (recipePath path)) = [path] ↔ path ≠ [] ∧ ReadsBack path) ∧
      ∀ rule ∈ (ofText view options text).makefile.rules,
        ((wordValues (ofDollar rule.recipe)).take 2 = ["cd".toList, rule.workingDir] ↔
          rule.workingDir ≠ [] ∧ ReadsBack rule.workingDir ∧ ¬rule.workingDir.GoesOn) ∧
        ∃ dispatch ∈ (Log.ofText text).run, ∃ step site, dispatch.outcome = .step step ∧
          step.site? = some site ∧ rule.workingDir = site.change.directory ∧
          ((∃ output, step.output? = some output ∧ rule.target = makeTarget output ∧
              ofDollar rule.recipe = site.shellText step.command) ∨
            ∃ files ∈ step.objects view, rule.target = makeTarget files.object ∧
              ofDollar rule.recipe = site.shellText step.command ++ " && ".toList ++
                ("touch ".toList ++ shell files.object) ∧
              (rule.workingDir ≠ [] → ReadsBack rule.workingDir → ¬rule.workingDir.GoesOn →
                StandsAlone step.command →
                  (wordValues (ofDollar rule.recipe) =
                      ["cd".toList, rule.workingDir, "&&".toList] ++ wordValues step.command ++
                        ["&&".toList, "touch".toList, files.object] ↔
                    files.object ≠ [] ∧ ReadsBack files.object))) := by
  refine ⟨fun path => ?_, fun rule member => ?_⟩
  · rw [recipePath, ofDollar_dollar, wordValues_shell_eq_iff]
  · obtain ⟨dispatch, dispatched, step, site, outcome, sited, asks⟩ :=
      exists_asks_of_mem_rules member
    have entered := recipePrefix_of_mem_run dispatched outcome sited
    cases asks with
    | @object files made =>
      have recipe : ofDollar (Rule.ofObject site.change step.command files).recipe =
          site.shellText step.command ++ " && ".toList ++
            ("touch ".toList ++ shell files.object) := by
        rw [Rule.recipe_ofObject entered, ofDollar_dollar]
        simp
      refine ⟨?_, dispatch, dispatched, step, site, outcome, sited, rfl,
        .inr ⟨files, made, rfl, recipe, ?_⟩⟩
      · rw [recipe, List.append_assoc, ← Site.shellText_append]
        exact take_wordValues_shellText_iff site _
      · intro some_char readsBack stops alone
        rw [recipe]
        exact alone.wordValues_touch_iff some_char readsBack stops files.object
    | @output output prerequisites linked calls escaped =>
      have recipe : ofDollar (Rule.ofLink site output prerequisites).recipe =
          site.shellText step.command := by
        rw [Rule.recipe_ofLink entered, ofDollar_dollar, calls]
      refine ⟨?_, dispatch, dispatched, step, site, outcome, sited, rfl,
        .inl ⟨output, linked, rfl, recipe⟩⟩
      rw [recipe]
      exact take_wordValues_shellText_iff site step.command

/-- A quote in the name of the directory opens a quotation that takes in all behind it. -/
theorem recipe_words_iff_of_quote :
    let text := "CompileC a.o a.c normal\n    cd /it\\'s\n    clang -c a.c -o a.o\n".toList
    let makefile := (ofText ⟨"/".toList, fun _ => .error []⟩ { capturedAt := [] } text).makefile
    wordValues (ofDollar (recipePath "/it's".toList)) ≠ ["/it's".toList] ∧
      makefile.rules.map (·.workingDir) = ["/it's".toList] ∧
      ∀ rule ∈ makefile.rules,
        wordValues (ofDollar rule.recipe) =
            ["cd".toList, "/its && clang -c a.c -o a.o && touch a.o".toList] ∧
          (wordValues (ofDollar rule.recipe)).take 2 ≠ ["cd".toList, rule.workingDir] := by
  intro text makefile
  obtain ⟨paths, rules⟩ :=
    recipe_words_iff ⟨"/".toList, fun _ => .error []⟩ { capturedAt := [] } text
  have quoted : ¬ReadsBack "/it's".toList := fun readsBack =>
    (readsBack.bare '\'' (by decide)).2.1 rfl
  have directories : makefile.rules.map (·.workingDir) = ["/it's".toList] := by decide +kernel
  refine ⟨?_, directories, fun rule member => ⟨?_, ?_⟩⟩
  · rw [Ne, paths]
    exact fun ⟨_, readsBack⟩ => quoted readsBack
  · have read : ∀ rule ∈ makefile.rules, wordValues (ofDollar rule.recipe) =
        ["cd".toList, "/its && clang -c a.c -o a.o && touch a.o".toList] := by decide +kernel
    exact read rule member
  · have named : rule.workingDir = "/it's".toList := by
      have shown : rule.workingDir ∈ makefile.rules.map (·.workingDir) := List.mem_map_of_mem member
      rw [directories] at shown
      exact List.mem_singleton.1 shown
    rw [Ne, (rules rule member).1, named]
    exact fun ⟨_, readsBack, _⟩ => quoted readsBack

end Translation

end MakeRules
