import MakeRules.Proofs.Step.Reader
import MakeRules.Proofs.Text.Lines
import MakeRules.Proofs.Translation.Run
import MakeRules.Proofs.Words.Spelling

/-! Compiler calls for several files.

Sources and objects stand behind their options, in any order and with other words between them.
Whatever characters they have, the first source goes with the first object, the second with the
second, and so on; and if their numbers differ, the step is left out.
-/

set_option autoImplicit false

namespace MakeRules

/-- The options whose values come in pairs. -/
inductive FileOption where
  | primaryFile
  | output
  deriving DecidableEq

namespace FileOption

def name : FileOption → Text
  | primaryFile => "-primary-file".toList
  | output => "-o".toList

theorem name_ne {first second : FileOption} (different : first ≠ second) :
    first.name ≠ second.name := by
  cases first <;> cases second <;> first | exact absurd rfl different | decide

theorem isPlain_name (option : FileOption) : ∀ c ∈ option.name, c ∉ Lexeme.special := by
  cases option <;> exact Lexeme.not_special_of_all (by decide)

theorem name_ne_nil (option : FileOption) : option.name ≠ [] := by
  cases option <;> decide

/-- The option as it is written, without quotes. -/
def segment (option : FileOption) : Segment :=
  .plain option.name option.name_ne_nil option.isPlain_name

end FileOption

/-- A word of a compiler call, and the option in front of it if it is the value of one. -/
structure CallArgument where
  option : Option FileOption
  word : Text
  free : word ≠ FileOption.primaryFile.name ∧ word ≠ FileOption.output.name
  oneLine : '\n' ∉ word

namespace CallArgument

theorem word_ne_name (argument : CallArgument) (option : FileOption) :
    argument.word ≠ option.name := by
  cases option with
  | primaryFile => exact argument.free.1
  | output => exact argument.free.2

/-- The words as they are written: the option bare and its value in quotes. -/
def segments (argument : CallArgument) : List Segment :=
  (argument.option.map FileOption.segment).toList ++ [.double argument.word]

end CallArgument

/-- A call of the compiler, perhaps through the wrapper of the build system. -/
structure CompileCall where
  wrapped : Bool
  arguments : List CallArgument

theorem SwiftInvocation.holdsCompile_append (front : Text) {c : Char} {rest : Text}
    (ends : (c == '/' || isSpace c) = true) (starts : startsCompile rest = true) :
    holdsCompile (front ++ c :: rest) = true := by
  induction front with
  | nil => rw [List.nil_append, holdsCompile, ends, starts, Bool.and_true, Bool.true_or]
  | cons d front ih => rw [List.cons_append, holdsCompile, ih, Bool.or_true]

namespace CompileCall

def wrapper : Text := "builtin-swiftTaskExecution -- ".toList

def opening : Text := "swift-frontend -frontend -c".toList

/-- Words as they are written, a space before each. -/
def spaced (segments : List Segment) : Text :=
  segments.flatMap fun segment => ' ' :: segment.written

/-- The call without the wrapper. -/
def command (call : CompileCall) : Text :=
  opening ++ spaced (call.arguments.flatMap CallArgument.segments)

def line (call : CompileCall) : Text :=
  (if call.wrapped then wrapper else []) ++ call.command

/-- The values of an option, in order. -/
def values (call : CompileCall) (option : FileOption) : List Text :=
  (call.arguments.filter fun argument => argument.option = some option).map (·.word)

section

theorem head?_spaced {segments : List Segment} {c : Char} (first : c ∈ (spaced segments).head?) :
    c = ' ' := by
  cases segments with
  | nil => cases first
  | cons segment segments => exact (Option.some.inj first).symm

theorem wordValues_append_spaced (segment : Segment) (segments : List Segment) :
    wordValues (segment.written ++ spaced segments) = (segment :: segments).map Segment.value := by
  have ends (segments : List Segment) : ∀ c ∈ (spaced segments).head?, isWordBreak c = true :=
    fun c first => head?_spaced first ▸ rfl
  induction segments generalizing segment with
  | nil => exact segment.wordValues_append (ends [])
  | cons next segments ih =>
    rw [segment.wordValues_append (ends _), spaced, List.flatMap_cons, List.cons_append,
      wordValues_cons_of_isWordBreak rfl, ← spaced, ih]
    rfl

/-- What the words behind the opening stand for. -/
def words (arguments : List CallArgument) : List Text :=
  (arguments.flatMap CallArgument.segments).map Segment.value

theorem wordValues_command (call : CompileCall) :
    wordValues call.command =
      "swift-frontend".toList :: "-frontend".toList :: "-c".toList :: words call.arguments := by
  let compiler : Segment :=
    .plain "swift-frontend".toList (by decide) (Lexeme.not_special_of_all (by decide))
  let mode : Segment :=
    .plain "-frontend".toList (by decide) (Lexeme.not_special_of_all (by decide))
  let action : Segment := .plain "-c".toList (by decide) (Lexeme.not_special_of_all (by decide))
  have opened : opening = compiler.written ++ spaced [mode, action] := by decide
  have shape : call.command = compiler.written ++
      spaced ([mode, action] ++ call.arguments.flatMap CallArgument.segments) := by
    rw [command, opened, List.append_assoc, spaced, spaced, spaced, List.flatMap_append]
  rw [shape, wordValues_append_spaced]
  rfl

theorem valuesBehind_words (arguments : List CallArgument) (option : FileOption)
    (before : Option Text) :
    valuesBehind option.name none before (words arguments) =
      (arguments.filter fun argument => argument.option = some option).map (·.word) := by
  induction arguments generalizing before with
  | nil => rfl
  | cons argument arguments ih =>
    -- a value that looked like an option would take the next word for its own value
    have other_word := argument.word_ne_name option
    cases front : argument.option with
    | none =>
      have shape : words (argument :: arguments) = argument.word :: words arguments := by
        simp [words, CallArgument.segments, front, Segment.value]
      rw [shape, valuesBehind_cons_of_ne _ _ other_word, ih]
      simp [front]
    | some other =>
      have shape : words (argument :: arguments) =
          other.name :: argument.word :: words arguments := by
        simp [words, CallArgument.segments, front, Segment.value, FileOption.segment]
      rw [shape]
      by_cases same : other = option
      · subst same
        rw [valuesBehind_option_cons _ _ other_word, ih]
        simp [front]
      · rw [valuesBehind_cons_of_ne _ _ (FileOption.name_ne same),
          valuesBehind_cons_of_ne _ _ other_word, ih]
        simp [front, same]

/-- The words of the opening are no options. -/
theorem optionValues_command (call : CompileCall) (option : FileOption) :
    optionValues (splitWords call.command) option.name = call.values option := by
  have bare : ∀ word ∈ ["swift-frontend".toList, "-frontend".toList, "-c".toList],
      word ≠ option.name := by cases option <;> decide
  simp only [List.forall_mem_cons] at bare
  obtain ⟨name, mode, action, _⟩ := bare
  rw [optionValues, ← wordValues, wordValues_command, valuesBehind_cons_of_ne _ _ name,
    valuesBehind_cons_of_ne _ _ mode, valuesBehind_cons_of_ne _ _ action, valuesBehind_words]
  rfl

theorem ofCompileLine_line (call : CompileCall) :
    SwiftInvocation.ofCompileLine call.line = call.command := by
  unfold line
  split <;> rfl

theorem startsCompile_command (call : CompileCall) :
    SwiftInvocation.startsCompile call.command = true := by
  unfold command
  cases shape : spaced (call.arguments.flatMap CallArgument.segments) with
  | nil => rfl
  | cons c rest =>
    obtain rfl : c = ' ' := head?_spaced (Option.mem_def.2 (congrArg List.head? shape))
    rfl

theorem isCompile_line (call : CompileCall) : SwiftInvocation.isCompile call.line = true := by
  have starts := call.startsCompile_command
  have ended : wrapper = "builtin-swiftTaskExecution --".toList ++ [' '] := by decide
  rw [SwiftInvocation.isCompile, Bool.or_eq_true, line]
  split
  · -- the compiler's name stands behind the last space of the wrapper
    rw [ended, List.append_assoc, List.singleton_append]
    exact .inr (SwiftInvocation.holdsCompile_append _ rfl starts)
  · exact .inl starts

theorem isStepMarker_line (call : CompileCall) : isStepMarker call.line = false := by
  unfold line
  split
  · exact isStepMarker_eq_false_of_isPrefix (List.prefix_append wrapper _) (by decide)
  · exact isStepMarker_eq_false_of_isPrefix (List.prefix_append opening _) (by decide)

theorem head?_line (call : CompileCall) : ∀ c ∈ call.line.head?, isSpace c = false := by
  intro c first
  unfold line at first
  split at first <;> exact Option.some.inj first ▸ rfl

theorem getLast?_spaced {arguments : List CallArgument} {c : Char}
    (last : c ∈ (spaced (arguments.flatMap CallArgument.segments)).getLast?) : c = '"' := by
  obtain rfl | ⟨before, argument, rfl⟩ := arguments.eq_nil_or_concat
  · cases last
  · have shape : spaced ((before ++ [argument]).flatMap CallArgument.segments) =
        spaced (before.flatMap CallArgument.segments) ++
          (spaced (argument.option.map FileOption.segment).toList ++
            " \"".toList ++ argument.word.flatMap Segment.doubleChar) ++ ['"'] := by
      simp [spaced, CallArgument.segments, Segment.written]
    rw [List.concat_eq_append, shape, List.getLast?_concat] at last
    exact (Option.some.inj last).symm

theorem getLast?_line (call : CompileCall) : ∀ c ∈ call.line.getLast?, isSpace c = false := by
  intro c last
  have opened : opening.getLast? = some 'c' := by decide
  rw [line, command, ← List.append_assoc, List.getLast?_append, List.getLast?_append, opened] at last
  cases quoted : (spaced (call.arguments.flatMap CallArgument.segments)).getLast? with
  | none =>
    rw [quoted] at last
    exact Option.some.inj last ▸ rfl
  | some d =>
    obtain rfl := getLast?_spaced quoted
    rw [quoted] at last
    exact Option.some.inj last ▸ rfl

theorem trim_line (call : CompileCall) : call.line.trim = call.line :=
  Text.trim_eq_self call.head?_line call.getLast?_line

theorem lf_not_mem_segments (argument : CallArgument) :
    ∀ segment ∈ argument.segments, '\n' ∉ segment.written := by
  intro segment member
  rcases List.mem_append.1 member with named | quoted
  · obtain ⟨option, _, rfl⟩ : ∃ option, argument.option = some option ∧ option.segment = segment := by
      simpa using named
    cases option <;> decide
  · obtain rfl := List.mem_singleton.1 quoted
    have inside : ∀ c ∈ argument.word, '\n' ∉ Segment.doubleChar c := by
      intro c among
      have other : c ≠ '\n' := fun same => argument.oneLine (same ▸ among)
      unfold Segment.doubleChar
      split <;> simp [Ne.symm other]
    simpa [Segment.written] using inside

theorem lf_not_mem_line (call : CompileCall) : '\n' ∉ call.line := by
  have quoted : '\n' ∉ spaced (call.arguments.flatMap CallArgument.segments) := by
    intro member
    obtain ⟨segment, among, inside⟩ := List.mem_flatMap.1 member
    obtain ⟨argument, _, own⟩ := List.mem_flatMap.1 among
    rcases List.mem_cons.1 inside with space | inside
    · cases space
    · exact lf_not_mem_segments argument segment own inside
  have front : '\n' ∉ (if call.wrapped then wrapper else []) := by
    split <;> decide
  have opened : '\n' ∉ opening := by decide
  simp [line, command, front, opened, quoted]

section

variable {marker : Record} {change : DirectoryChange} {rest : Log}

theorem isBehind_line (call : CompileCall) (number : Decimal)
    (reads : DirectoryChange.ofRecord? change.record = some change) :
    let command : Record := ⟨call.line, number⟩
    Site.IsBehind .swiftCompile marker (change.record :: command :: rest)
      { marker, change, command } where
  marker := rfl
  shown := ⟨rest, rfl⟩
  change := reads
  notices := by
    intro notice member
    cases member
  command_not_passed := rfl
  command := by
    have some_text : call.line ≠ [] := by
      intro empty
      cases call.isCompile_line.symm.trans (congrArg SwiftInvocation.isCompile empty)
    simp [StepKind.acceptsCommand, some_text, call.isStepMarker_line, call.isCompile_line]

theorem classify_line (call : CompileCall) (number : Decimal)
    (marks : StepKind.swiftCompile.isMarker marker.text = true)
    (reads : DirectoryChange.ofRecord? change.record = some change) :
    let sources := call.values .primaryFile
    let objects := call.values .output
    let command : Record := ⟨call.line, number⟩
    let site : Site := { marker, change, command }
    classify marker (change.record :: command :: rest) =
      if sources.length = objects.length then
        .step (.swiftCompile site call.command (sourceObjects sources objects))
      else .skipped .swiftCompile (.pairMismatch site sources.length objects.length) := by
  intro sources objects command site
  have kind := StepKind.ofText?_eq_some_iff.2 marks
  have found : Site.read .swiftCompile marker (change.record :: command :: rest) = .ok site :=
    Site.read_of_isBehind (call.isBehind_line number reads)
  have line : SwiftInvocation.ofCompileLine site.command.text = call.command :=
    call.ofCompileLine_line
  have primary : optionValues (splitWords call.command) "-primary-file".toList = sources :=
    call.optionValues_command .primaryFile
  have output : optionValues (splitWords call.command) "-o".toList = objects :=
    call.optionValues_command .output
  have reading : Step.read .swiftCompile marker (change.record :: command :: rest) =
      if sources.length = objects.length then
        .ok (.swiftCompile site call.command (sourceObjects sources objects))
      else .error (.pairMismatch site sources.length objects.length) := by
    rw [Step.read, found]
    simp only [Step.readWith, bind, Except.bind, line, primary, output]
    rfl
  by_cases agree : sources.length = objects.length
  · simp only [classify, kind, reading, if_pos agree]
  · simp only [classify, kind, reading, if_neg agree]

end

end

end CompileCall

/-- As many objects as sources go with them one by one. -/
theorem map_sourceObjects {sources objects : List Text} (agree : sources.length = objects.length) :
    (sourceObjects sources objects).map (·.source) = sources ∧
      (sourceObjects sources objects).map (·.object) = objects := by
  rw [sourceObjects, ← List.map_uncurry_zip_eq_zipWith, List.map_map, List.map_map]
  exact ⟨List.map_fst_zip agree.le, List.map_snd_zip agree.ge⟩

namespace Cursor

/-- A compiler call behind its marker and a directory change is read as it was meant: the wrapper
is left off, and each source goes with the object of the same place. If the numbers differ, that
is all that is reported, at the line of the call. -/
theorem files_of_compile_call (call : CompileCall) (view : FileView) (file : Text)
    {cursor : Cursor} {marker : Record} {change : DirectoryChange} {number : Decimal} {rest : Log}
    (marks : StepKind.swiftCompile.isMarker marker.text = true)
    (reads : DirectoryChange.ofRecord? change.record = some change)
    (ahead : cursor.ahead = change.record :: ⟨call.line, number⟩ :: rest) :
    let sources := call.values .primaryFile
    let objects := call.values .output
    let site : Site := { marker, change, command := ⟨call.line, number⟩ }
    let outcome := (cursor.readOutcome marker).1
    let reported (table : RuleTable) :=
      (Dispatch.contribute view file table ⟨marker, outcome⟩).diagnostics
    call.line.trim = call.line ∧ '\n' ∉ call.line ∧
      (sources.length = objects.length →
        (∃ files, outcome = .step (.swiftCompile site call.command files) ∧
          files.map (·.source) = sources ∧ files.map (·.object) = objects) ∧
        ∀ table, reported table = []) ∧
      (sources.length ≠ objects.length →
        let fault := StepFault.pairMismatch site sources.length objects.length
        outcome = .skipped .swiftCompile fault ∧
        ∀ table, reported table = [{
          code := .primaryOutputMismatch
          message := fault.message .swiftCompile
          span := ⟨file, number⟩ }]) := by
  intro sources objects site outcome reported
  have text : marker.isBlank = false := by
    have some_text := ne_nil_of_isStepMarker (isStepMarker_iff.2 ⟨_, marks⟩)
    simpa [Record.isBlank] using some_text
  have read : outcome = classify marker cursor.ahead :=
    congrArg Prod.fst (cursor.readOutcome_eq marker)
  rw [ahead, call.classify_line number marks reads] at read
  refine ⟨call.trim_line, call.lf_not_mem_line, fun agree => ?_, fun differ => ?_⟩
  · rw [if_pos agree] at read
    refine ⟨⟨_, read, map_sourceObjects agree⟩, fun table => ?_⟩
    have added := @contribute_of_step view file ⟨marker, outcome⟩ text table _ read
    exact congrArg Contribution.diagnostics added
  · intro fault
    rw [if_neg differ] at read
    refine ⟨read, fun table => ?_⟩
    have added := @contribute_of_skipped view file ⟨marker, outcome⟩ text table _ _ read
    exact congrArg Contribution.diagnostics added

/-- Both objects stand behind both sources, and a word among them looks like an option only in
part. -/
theorem files_of_compile_call_of_late_objects :
    let call : CompileCall := {
      wrapped := true
      arguments := [
        ⟨some .primaryFile, "a\" b.swift".toList, by decide, by decide⟩,
        ⟨some .primaryFile, "$c\\".toList, by decide, by decide⟩,
        ⟨none, "-o ".toList, by decide, by decide⟩,
        ⟨some .output, "a.o".toList, by decide, by decide⟩,
        ⟨some .output, [], by decide, by decide⟩] }
    let cursor := (Cursor.start (Log.ofText ("SwiftCompile normal\n  cd /d\n".toList ++
      call.line))).skip 1
    let marker : Record := ⟨"SwiftCompile normal".toList, .ofNat 1⟩
    let change : DirectoryChange := { record := ⟨"cd /d".toList, .ofNat 2⟩, directory := "/d".toList }
    StepKind.swiftCompile.isMarker marker.text = true ∧
      DirectoryChange.ofRecord? change.record = some change ∧
      cursor.ahead = [change.record, ⟨call.line, .ofNat 3⟩] ∧
      call.line = "builtin-swiftTaskExecution -- swift-frontend -frontend -c ".toList ++
        "-primary-file \"a\\\" b.swift\" -primary-file \"\\$c\\\\\" \"-o \" ".toList ++
        "-o \"a.o\" -o \"\"".toList ∧
      ∃ files, (cursor.readOutcome marker).1 = .step (.swiftCompile
          { marker, change, command := ⟨call.line, .ofNat 3⟩ } call.command files) ∧
        files.map (·.source) = ["a\" b.swift".toList, "$c\\".toList] ∧
        files.map (·.object) = ["a.o".toList, []] := by
  intro call cursor marker change
  have marks : StepKind.swiftCompile.isMarker marker.text = true := by decide
  have reads : DirectoryChange.ofRecord? change.record = some change := by decide +kernel
  have ahead : cursor.ahead = [change.record, ⟨call.line, .ofNat 3⟩] := by decide +kernel
  obtain ⟨_, _, agreeing, _⟩ :=
    files_of_compile_call call ⟨[], fun _ => .error []⟩ [] marks reads ahead
  exact ⟨marks, reads, ahead, by decide +kernel, (agreeing (by decide)).1⟩

end Cursor

end MakeRules
