import MakeRules.Proofs.CommandLine.Command
import MakeRules.Proofs.Config.Loading
import MakeRules.Proofs.Makefile.Blocks
import MakeRules.Proofs.Run.Writes
import MakeRules.Proofs.Translation.Lines

/-! The goal of the makefiles that the command writes.

A target is given on the command line, or by a configuration, or by neither. Whichever it is, it
is held to one rule, which leaves no character to it that means anything to make.
-/

set_option autoImplicit false

namespace MakeRules

namespace Makefile

/-- The text of a makefile gives the name of a target as its goal, on the fourth line, and its last
lines are the dependency line of that target and the recipe behind tabs. -/
structure NamesGoal (makefile : Makefile) (target : Text) : Prop where
  some_char : target ≠ []
  name : ∀ c ∈ target, Schema.isNameChar c = true
  goal : (makefile.render.splitOn '\n')[3]? = some (".DEFAULT_GOAL := ".toList ++ target)
  aggregate : ∃ before, makefile.render.splitOn '\n' = before ++
    (target ++ ':' :: makefile.aggregate.prerequisites.flatMap (' ' :: ·)) ::
      makefile.aggregate.recipe.map ('\t' :: ·) ++ [[]]

theorem namesGoal {makefile : Makefile} (closed : ∀ line ∈ makefile.aggregateLines, '\n' ∉ line)
    (accepts : Schema.targetName.accepts makefile.aggregate.target = true) :
    makefile.NamesGoal makefile.aggregate.target := by
  obtain ⟨some_char, name⟩ := Pattern.accepts_iff.1 accepts
  refine ⟨some_char, name, ?_, ?_⟩
  · have line : '\n' ∉ goalPrefix ++ makefile.aggregate.target := by
      rw [List.mem_append, not_or]
      exact ⟨by decide, fun member => by cases name _ member⟩
    obtain ⟨behind, shape⟩ := makefile.exists_render_append_eq []
    rw [List.append_nil] at shape
    rw [shape, splitOn_header (Text.lf_not_mem_folded _) (Text.lf_not_mem_folded _),
      Text.splitOn_append line]
    rfl
  · refine ⟨headerLines makefile.header makefile.aggregate.target ++
      makefile.entries.flatMap (cutLines (Text.splitOn '\n')), ?_⟩
    rw [splitOn_render closed, aggregateLines, ruleLines, dependencyLine_eq]

end Makefile

namespace CommandLine

variable {words : List Text} {machine : Machine}

theorem accepts_of_configOn {path : Option Text} {config : Config}
    (loads : configOn machine path = .ok config) {name : Text}
    (target : config.aggregateTarget = some name) :
    Schema.targetName.accepts name = true := by
  cases path with
  | none =>
    cases loads
    cases target
  | some path =>
    simp only [configOn, Config.ofFile] at loads
    split at loads
    · cases loads
    · split at loads
      · cases loads
      · exact Config.accepts_of_ofJson loads target

theorem accepts_default : Schema.targetName.accepts defaultAggregateTarget = true := by
  decide

/-- The target of a run, wherever it comes from, is the name of a target. -/
theorem Asks.accepts_target {request : RunRequest} (asks : Asks words machine request)
    {target : Text} (settles : request.targetInEffect = .ok target) :
    Schema.targetName.accepts target = true := by
  obtain ⟨-, -, -, -, loads⟩ := asks
  unfold RunRequest.targetInEffect at settles
  split at settles
  · obtain ⟨rfl, accepted⟩ := Config.requireTargetName_eq_ok_iff.1 settles
    exact accepted
  · cases Except.ok.inj settles
    cases configured : Option.bind _ Text.nonBlank? with
    | none => exact accepts_default
    | some name =>
      obtain ⟨text, target, left⟩ := Option.bind_eq_some_iff.1 configured
      exact Pattern.accepts_of_nonBlank? (accepts_of_configOn loads target) left

theorem exists_writes_of_command (words : List Text) (machine : Machine) :
    ∃ writes : List Write,
      ((command (m := StateM Machine) words).run.run machine).2.files =
        writes.foldl Write.apply machine.files ∧
      ∀ write ∈ writes, ∃ request, Asks words machine request ∧ request.Writes machine write := by
  have goes := goes_command words machine
  generalize (command (m := StateM Machine) words).run.run machine = result at goes ⊢
  cases goes with
  | helps | refuses => exact ⟨[], rfl, nofun⟩
  | @runs request asks =>
    obtain ⟨writes, files, written⟩ := request.exists_writes machine
    exact ⟨writes, files, fun write member => ⟨request, asks, written write member⟩⟩

/-- A name that is accepted on its own is one that a configuration may give. -/
theorem requireTargetName_iff_ofJson {members : List (Text × Json)} {name : Text}
    (version : Json.member? Schema.versionKey members = some (.str Config.supportedVersion))
    (target : Json.member? Schema.aggregateTargetKey members = some (.str name))
    (only : ∀ member ∈ members, member.1 = Schema.versionKey ∨
      member.1 = Schema.aggregateTargetKey) :
    (∃ accepted, Config.requireTargetName name = .ok accepted) ↔
      ∃ config, Config.ofJson (.obj members) = .ok config := by
  rw [Config.exists_requireTargetName_eq_ok_iff, Config.exists_ofJson_eq_ok_iff version,
    Config.issues_eq_nil_iff version target only]

/-- All that the command writes are makefiles and entries of ledgers. Each makefile gives as its
goal a name of one or more letters, digits and marks, and its last lines are the rule for it. The
names that are accepted on the command line are those that a configuration may give. -/
theorem written_makefiles_name_goal (words : List Text) (machine : Machine) :
    (∃ writes : List Write,
      ((command (m := StateM Machine) words).run.run machine).2.files =
        writes.foldl Write.apply machine.files ∧
      (∀ write ∈ writes, ∃ request, Asks words machine request ∧ request.Writes machine write) ∧
      ∀ path makefile, .makefile path makefile ∈ writes → ∃ target, makefile.NamesGoal target) ∧
    ∀ (name : Text) (members : List (Text × Json)),
      Json.member? Schema.versionKey members = some (.str Config.supportedVersion) →
      Json.member? Schema.aggregateTargetKey members = some (.str name) →
      (∀ member ∈ members, member.1 = Schema.versionKey ∨
        member.1 = Schema.aggregateTargetKey) →
      ((∃ accepted, Config.requireTargetName name = .ok accepted) ↔
        ∃ config, Config.ofJson (.obj members) = .ok config) := by
  obtain ⟨writes, files, written⟩ := exists_writes_of_command words machine
  refine ⟨⟨writes, files, written, ?_⟩, fun _ _ => requireTargetName_iff_ofJson⟩
  intro path makefile member
  obtain ⟨request, asks, writes⟩ := written _ member
  cases writes with
  | makefile settles translates =>
    obtain ⟨_, options, rfl, _, _, rfl⟩ := Machine.exists_of_translate_eq_ok translates
    have accepts := asks.accepts_target settles
    have accepted := Config.requireTargetName_eq_ok_iff.2 ⟨rfl, accepts⟩
    exact ⟨_, Makefile.namesGoal (Translation.lf_not_mem_aggregateLines accepted) accepts⟩

end CommandLine

end MakeRules
