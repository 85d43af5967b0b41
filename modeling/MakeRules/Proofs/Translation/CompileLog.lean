import MakeRules.Proofs.Log.DirectoryChange
import MakeRules.Proofs.Rule.Table
import MakeRules.Proofs.Step.Reading
import MakeRules.Proofs.Translation.Rules

/-! Translating a log that was written from compile steps.

Each step is shown on three lines, its marker, the change to its directory and its
command, with the paths guarded. The translation has the rule of each object's first
step, whatever characters the paths have, and reports nothing.
-/

set_option autoImplicit false

namespace MakeRules

open Escape

/-- A path that fits on one line. -/
structure LinePath where
  text : Text
  some_text : text ≠ []
  oneLine : text.any isLineEnd = false

theorem LinePath.not_isLineEnd (path : LinePath) {c : Char} (member : c ∈ path.text) :
    isLineEnd c = false := by
  rw [← Bool.not_eq_true]
  exact List.any_eq_false.1 path.oneLine c member

/-- A run of the compiler that a log can show. -/
structure CompileStep where
  object : LinePath
  source : LinePath
  directory : LinePath
  command : Text
  -- the line of the directory change is trimmed
  directory_end : directory.text.getLast?.any isSpace = false
  command_some_text : command ≠ []
  command_trim : command.trim = command
  command_oneLine : '\n' ∉ command
  command_not_marker : isStepMarker command = false
  command_not_notice : isResponseFileNotice command = false

namespace CompileStep

def sameObject (first second : CompileStep) : Bool :=
  first.object.text == second.object.text

def markerLine (step : CompileStep) : Text :=
  "CompileC ".toList ++ guarded step.object.text ++ ' ' :: guarded step.source.text ++
    " normal".toList

def changeText (step : CompileStep) : Text :=
  "cd ".toList ++ guarded step.directory.text

def changeLine (step : CompileStep) : Text :=
  "    ".toList ++ step.changeText

def lines (step : CompileStep) : List Text :=
  [step.markerLine, step.changeLine, step.command]

/-- The log of some steps. -/
def log (steps : List CompileStep) : Text :=
  (steps.flatMap lines).flatMap (· ++ ['\n'])

/-- The rule that repeats a step. -/
def rule (step : CompileStep) : Rule where
  target := makeTarget step.object.text
  prerequisites := [makeTarget step.source.text]
  workingDir := step.directory.text
  recipe := "cd ".toList ++ recipePath step.directory.text ++ " && ".toList ++
    dollar step.command ++ " && touch ".toList ++ recipePath step.object.text

variable (step : CompileStep)

theorem not_lf_guarded (path : LinePath) : '\n' ∉ guarded path.text := by
  intro member
  rcases mem_guarded member with slash | inside
  · cases slash
  · cases path.not_isLineEnd inside

theorem head?_markerLine : step.markerLine.head? = some 'C' := rfl

theorem getLast?_markerLine : step.markerLine.getLast? = some 'l' := by
  have last : " normal".toList.getLast? = some 'l' := by decide
  unfold markerLine
  rw [List.getLast?_append, last, Option.some_or]

theorem getLast?_append_guarded (front : Text) {path : Text} (some_text : path ≠ []) :
    (front ++ guarded path).getLast? = path.getLast? := by
  rw [List.getLast?_append, getLast?_guarded, List.getLast?_eq_some_getLast some_text,
    Option.some_or]

theorem isSpace_getLast?_directory {c : Char} (last : c ∈ step.directory.text.getLast?) :
    isSpace c = false := by
  have stops := step.directory_end
  rwa [Option.mem_def.1 last] at stops

theorem isSpace_getLast?_command {c : Char} (last : c ∈ step.command.getLast?) :
    isSpace c = false := by
  rw [← step.command_trim] at last
  exact Text.not_isSpace_of_mem_getLast?_trim last

theorem getLast?_changeText : step.changeText.getLast? = step.directory.text.getLast? := by
  unfold changeText
  exact getLast?_append_guarded _ step.directory.some_text

theorem trim_markerLine : step.markerLine.trim = step.markerLine := by
  apply Text.trim_eq_self
  · intro c first
    rw [head?_markerLine] at first
    obtain rfl := Option.some.inj first
    rfl
  · intro c last
    rw [getLast?_markerLine] at last
    obtain rfl := Option.some.inj last
    rfl

theorem trim_changeLine : step.changeLine.trim = step.changeText := by
  apply Text.trim_append _ (List.all_eq_true.1 (by decide))
  · intro c first
    obtain rfl : 'c' = c := Option.some.inj first
    rfl
  · intro c last
    rw [getLast?_changeText] at last
    exact step.isSpace_getLast?_directory last

theorem not_lf_markerLine : '\n' ∉ step.markerLine := by
  unfold markerLine
  intro member
  simp only [List.mem_append, List.mem_cons] at member
  rcases member with ((word | object) | space | source) | word
  · revert word
    decide
  · exact not_lf_guarded step.object object
  · cases space
  · exact not_lf_guarded step.source source
  · revert word
    decide

theorem not_lf_changeLine : '\n' ∉ step.changeLine := by
  unfold changeLine changeText
  intro member
  simp only [List.mem_append] at member
  rcases member with space | word | directory
  · revert space
    decide
  · revert word
    decide
  · exact not_lf_guarded step.directory directory

/-- A line break cannot swallow the end of a line. -/
theorem closed_lines {line : Text} (member : line ∈ step.lines) :
    '\n' ∉ line ∧ line.getLast? ≠ some '\r' := by
  simp only [lines, List.mem_cons, List.not_mem_nil, or_false] at member
  rcases member with rfl | rfl | rfl
  · exact ⟨step.not_lf_markerLine, by rw [getLast?_markerLine]; decide⟩
  · refine ⟨step.not_lf_changeLine, fun last => ?_⟩
    unfold changeLine at last
    rw [List.getLast?_append, getLast?_changeText,
      List.getLast?_eq_some_getLast step.directory.some_text, Option.some_or,
      ← List.getLast?_eq_some_getLast] at last
    cases step.isSpace_getLast?_directory last
  · exact ⟨step.command_oneLine, fun last => by cases step.isSpace_getLast?_command last⟩

theorem lines_log (steps : List CompileStep) : (log steps).lines = steps.flatMap lines := by
  have closed : ∀ line ∈ steps.flatMap lines, '\n' ∉ line ∧ line.getLast? ≠ some '\r' := by
    intro line member
    obtain ⟨step, _, member⟩ := List.mem_flatMap.1 member
    exact step.closed_lines member
  simpa [log] using Text.lines_flatMap_append closed []

/-- The last line need not be ended. -/
theorem lines_of_append_lf {steps : List CompileStep} {text : Text}
    (ended : text ++ ['\n'] = log steps) : text.lines = steps.flatMap lines := by
  obtain rfl | ⟨front, step, rfl⟩ := steps.eq_nil_or_concat
  · cases (List.append_eq_nil_iff.1 ended).2
  · have closed : ∀ line ∈ front.flatMap lines ++ [step.markerLine, step.changeLine],
        '\n' ∉ line ∧ line.getLast? ≠ some '\r' := by
      intro line member
      rcases List.mem_append.1 member with earlier | last
      · obtain ⟨other, _, member⟩ := List.mem_flatMap.1 earlier
        exact other.closed_lines member
      · exact step.closed_lines (List.mem_append_left [step.command] last)
    have shape : text = (front.flatMap lines ++ [step.markerLine, step.changeLine]).flatMap
        (· ++ ['\n']) ++ step.command := by
      apply (List.append_left_inj ['\n']).1
      rw [ended]
      simp [log, lines]
    rw [shape, Text.lines_flatMap_append closed,
      Text.lines_of_not_mem step.command_some_text step.command_oneLine]
    simp [lines]

/-- The site that three lines of a log show. -/
def site (step : CompileStep) (before : Nat) : Site where
  marker := ⟨step.markerLine, .ofNat (before + 1)⟩
  change := { record := ⟨step.changeText, .ofNat (before + 2)⟩, directory := step.directory.text }
  command := ⟨step.command, .ofNat (before + 3)⟩

def files (step : CompileStep) : SourceObject where
  source := step.source.text
  object := step.object.text

theorem ofLines_lines_append (before : Nat) (rest : List Text) :
    Log.ofLines before (step.lines ++ rest) =
      (step.site before).marker :: (step.site before).behindMarker ++
        Log.ofLines (before + 3) rest := by
  simp [lines, site, Site.behindMarker, trim_markerLine, trim_changeLine, step.command_trim]

theorem isBehind_site (before : Nat) (rest : Log) :
    (step.site before).IsBehind .compileC (step.site before).marker
      ((step.site before).behindMarker ++ rest) where
  marker := rfl
  shown := List.prefix_append ..
  change := DirectoryChange.ofRecord?_guarded step.directory.some_text
    (fun _ member => step.directory.not_isLineEnd member) rfl
  notices := by intro notice member; cases member
  command_not_passed := by
    simp [StepKind.passes, site, step.command_some_text, step.command_not_notice]
  command := by
    simp [StepKind.acceptsCommand, site, step.command_some_text, step.command_not_marker]

theorem ofText?_markerLine : StepKind.ofText? step.markerLine = some .compileC := by
  have behind : Text.behindWord? step.markerLine "CompileC".toList =
      some (' ' :: (guarded step.object.text ++ ' ' :: guarded step.source.text ++
        " normal".toList)) := Text.behindWord?_eq_some.2 ⟨rfl, ' ', _, rfl, rfl⟩
  have marks : StepKind.compileC.isMarker step.markerLine = true :=
    StepKind.isMarker_iff.2 ⟨"CompileC".toList, List.mem_singleton_self _, by rw [behind]; rfl⟩
  exact StepKind.ofText?_eq_some_iff.2 marks

theorem markerPaths_marker (before : Nat) :
    markerPaths (step.site before).marker 2 = [step.object.text, step.source.text] := by
  have words := wordValues_intercalate_guarded ["CompileC".toList, step.object.text,
    step.source.text, "normal".toList] (by simp [step.object.some_text, step.source.some_text])
  have shape : (step.site before).marker.text = [' '].intercalate (["CompileC".toList,
      step.object.text, step.source.text, "normal".toList].map guarded) := by
    have first : "CompileC ".toList = guarded "CompileC".toList ++ [' '] := by decide
    have last : " normal".toList = ' ' :: guarded "normal".toList := by decide
    change step.markerLine = _
    unfold markerLine
    rw [first, last]
    simp [List.intercalate]
  rw [markerPaths, List.map_take, List.map_drop, shape, ← wordValues, words]
  rfl

theorem classify_marker (before : Nat) (rest : Log) :
    classify (step.site before).marker ((step.site before).behindMarker ++ rest) =
      .step (.compileC (step.site before) step.files) := by
  have kind : StepKind.ofText? (step.site before).marker.text = some .compileC :=
    step.ofText?_markerLine
  have site := Site.read_eq_ok_iff.2 (step.isBehind_site before rest)
  have reads : Step.read .compileC (step.site before).marker
      ((step.site before).behindMarker ++ rest) = .ok (.compileC (step.site before) step.files) := by
    rw [Step.read, site]
    simp only [Step.readWith, markerPaths_marker]
    rfl
  simp only [classify, kind, reads]

theorem dispatch_lines_append (before : Nat) (rest : List Text) :
    (Log.ofLines before (step.lines ++ rest)).dispatch =
      ⟨(step.site before).marker, .step (.compileC (step.site before) step.files)⟩ ::
        (Log.ofLines (before + 3) rest).dispatch := by
  rw [ofLines_lines_append, List.cons_append, Log.dispatch_cons, classify_marker]
  simp [Outcome.taken, Step.site?]

theorem ofObject_site (before : Nat) :
    Rule.ofObject (step.site before).change (step.site before).command.text step.files = step.rule :=
  rfl

section

variable (view : FileView) (file : Text) (table : RuleTable) (before : Nat)
  (steps : List CompileStep)

theorem contribute_marker :
    Dispatch.contribute view file table
        ⟨(step.site before).marker, .step (.compileC (step.site before) step.files)⟩ =
      { Contribution.ofRules table [step.rule] with echo := some step.markerLine } := by
  have text : (step.site before).marker.isBlank = false := rfl
  simp only [Dispatch.contribute, text, Step.contribute, ofObject_site]
  rfl

theorem tableAfter_lines :
    tableAfter view file table (Log.ofLines before (steps.flatMap lines)).dispatch =
      table.registerAll (steps.map rule) := by
  induction steps generalizing table before with
  | nil => rfl
  | cons step steps ih =>
    rw [List.flatMap_cons, dispatch_lines_append, tableAfter, contribute_marker, ih]
    rfl

theorem diagnostics_lines :
    (contributions view file table (Log.ofLines before (steps.flatMap lines)).dispatch).flatMap
      (·.diagnostics) = [] := by
  induction steps generalizing table before with
  | nil => rfl
  | cons step steps ih =>
    rw [List.flatMap_cons, dispatch_lines_append, contributions, contribute_marker,
      List.flatMap_cons, ih]
    rfl

end

theorem sameTarget_rule (first second : CompileStep) :
    first.rule.sameTarget second.rule = first.sameObject second :=
  makeTarget_beq_makeTarget ..

theorem newRules_map_rule (steps : List CompileStep) :
    RuleTable.newRules {} (steps.map rule) = (steps.eraseDupsBy sameObject).map rule := by
  rw [RuleTable.newRules_map sameTarget_rule]
  simp [RuleTable.has, RuleTable.get?]

end CompileStep

namespace Translation

/-- A log of compile steps gives one rule for each object, that of its first step. -/
theorem rules_of_compile_log (view : FileView) (options : TranslationOptions)
    {steps : List CompileStep} {text : Text}
    (written : text = CompileStep.log steps ∨ text ++ ['\n'] = CompileStep.log steps) :
    let translation := ofText view options text
    translation.diagnostics = [] ∧ translation.linkedProducts = [] ∧
      translation.rules = (steps.eraseDupsBy CompileStep.sameObject).map CompileStep.rule := by
  intro translation
  have lines : text.lines = steps.flatMap CompileStep.lines := by
    rcases written with rfl | ended
    · exact CompileStep.lines_log steps
    · exact CompileStep.lines_of_append_lf ended
  have log : Log.ofText text = Log.ofLines 0 (steps.flatMap CompileStep.lines) := by
    rw [Log.ofText, lines]
  have table : translation.table = RuleTable.registerAll {} (steps.map CompileStep.rule) := by
    have whole : translation.table = _ := table_ofLog view options (Log.ofText text)
    rw [whole, log, CompileStep.tableAfter_lines]
  refine ⟨?_, ?_, ?_⟩
  · change (contributions view options.file {} (Log.ofText text).dispatch).flatMap _ = []
    rw [log]
    exact CompileStep.diagnostics_lines ..
  · rw [linkedProducts, table, RuleTable.linkedProducts_registerAll]
  · rw [rules, table, RuleTable.rules_registerAll, CompileStep.newRules_map_rule, List.nil_append]

/-- A directory with a quote in it is read as a word, and the second step of an object adds
nothing. -/
theorem rules_of_compile_log_of_quoted_paths :
    let text := ['\n'].intercalate (["CompileC out\\ dir/\\$a.o \\é\\\".c normal",
      "    cd /it\\'s\\ here", "clang -c a", "CompileC out\\ dir/\\$a.o b.c normal",
      "    cd /it\\'s\\ here", "clang -c a"].map String.toList)
    let translation := ofText ⟨"/".toList, fun _ => .error []⟩ { capturedAt := [] } text
    translation.diagnostics = [] ∧ translation.linkedProducts = [] ∧ translation.rules = [{
      target := "out\\ dir/$$a.o".toList
      prerequisites := ["é\".c".toList]
      workingDir := "/it's here".toList
      recipe := "cd /it's\\ here && clang -c a && touch out\\ dir/\\$$a.o".toList }] := by
  intro text translation
  let first : CompileStep := {
    object := ⟨"out dir/$a.o".toList, by decide, by decide⟩
    source := ⟨"é\".c".toList, by decide, by decide⟩
    directory := ⟨"/it's here".toList, by decide, by decide⟩
    command := "clang -c a".toList
    directory_end := by decide
    command_some_text := by decide
    command_trim := by decide
    command_oneLine := by decide
    command_not_marker := by decide
    command_not_notice := by decide }
  let again : CompileStep := { first with source := ⟨"b.c".toList, by decide, by decide⟩ }
  have ended : text ++ ['\n'] = CompileStep.log [first, again] := by decide +kernel
  obtain ⟨diagnostics, products, rules⟩ := rules_of_compile_log _ _ (.inr ended)
  refine ⟨diagnostics, products, rules.trans ?_⟩
  decide +kernel

end Translation

end MakeRules
