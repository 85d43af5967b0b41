import MakeRules.Proofs.Config
import MakeRules.Proofs.Escape.Dollars
import MakeRules.Proofs.Rule.OfStep
import MakeRules.Proofs.Translation.Rules

/-! What make and the shell read of the rules of a translation.

Every text of a rule is written by an escaper as a whole, so its dollars stand in pairs, and
what make hands to the shell is the text that was meant for it.
-/

set_option autoImplicit false

namespace MakeRules

open Escape

/-- What the shell is to run in the directory of a step. -/
def Site.shellText (site : Site) (command : Text) : Text :=
  "cd ".toList ++ shell site.change.directory ++ " && ".toList ++ command

section

variable {site : Site}

theorem Rule.recipe_ofObject (entered : site.change.recipePrefix = changeTo site.change.directory)
    (command : Text) (files : SourceObject) :
    (ofObject site.change command files).recipe =
      dollar (site.shellText command ++ " && touch ".toList ++ shell files.object) := by
  have cd : dollar "cd ".toList = "cd ".toList := by decide
  have next : dollar " && ".toList = " && ".toList := by decide
  have touch : dollar " && touch ".toList = " && touch ".toList := by decide
  simp only [ofObject, entered, changeTo, recipePath, Site.shellText, dollar_append, cd, next, touch]

theorem Rule.recipe_ofLink (entered : site.change.recipePrefix = changeTo site.change.directory)
    (output : Text) (prerequisites : List Text) :
    (ofLink site output prerequisites).recipe = dollar (site.shellText site.command.text) := by
  have cd : dollar "cd ".toList = "cd ".toList := by decide
  have next : dollar " && ".toList = " && ".toList := by decide
  simp only [ofLink, entered, changeTo, recipePath, Site.shellText, dollar_append, cd, next]

end

/-- The rules that a step asks for: those of its objects, or that of its output. -/
inductive Step.Asks (view : FileView) (step : Step) (site : Site) : Rule → Prop where
  | object {files : SourceObject} (made : files ∈ step.objects view) :
      Asks view step site (Rule.ofObject site.change step.command files)
  | output {output : Text} {prerequisites : List Text} (linked : step.output? = some output)
      (calls : step.command = site.command.text)
      (escaped : ∀ prerequisite ∈ prerequisites, ∃ path, prerequisite = makeTarget path) :
      Asks view step site (Rule.ofLink site output prerequisites)

section

variable {view : FileView} {file : Text} {table : RuleTable}

theorem Step.asks_of_mem_contribute {step : Step} {rule : Rule}
    (member : rule ∈ (step.contribute view file table).rules) :
    ∃ site, step.site? = some site ∧ step.Asks view site rule := by
  have adds := step.adds_contribute view file table
  generalize step.contribute view file table = added at adds member
  cases adds with
  | leftOut | postLink => cases member
  | @objects _ site sited _ _ =>
    obtain ⟨files, made, rfl⟩ := List.mem_map.1 (RuleTable.mem_of_mem_newRules member)
    exact ⟨site, sited, .object made⟩
  | @unlisted site output =>
    obtain rfl := List.mem_singleton.1 (RuleTable.mem_of_mem_newRules member)
    exact ⟨site, rfl, .output rfl rfl nofun⟩
  | @listed site output path paths _ =>
    obtain rfl := List.mem_singleton.1 (RuleTable.mem_of_mem_newRules member)
    refine ⟨site, rfl, .output rfl rfl fun prerequisite member => ?_⟩
    obtain ⟨path, _, rfl⟩ := List.mem_map.1 (List.mem_eraseDups.1 member)
    exact ⟨path, rfl⟩

theorem Step.recipe_contribute_of_ne {step : Step} (other : step.kind ≠ .postLink) :
    (step.contribute view file table).recipe = [] := by
  have adds := step.adds_contribute view file table
  generalize step.contribute view file table = added at adds ⊢
  cases adds with
  | postLink => exact absurd rfl other
  | _ => rfl

/-- A command that is run after linking is its own marker. -/
def isPostLink (text : Text) : Bool :=
  StepKind.ofText? text = some .postLink

theorem classify_of_isPostLink {record : Record} (marks : isPostLink record.text = true)
    (behind : Log) : classify record behind = .step (.postLink record) := by
  simp only [classify, of_decide_eq_true marks]
  rfl

theorem Dispatch.recipe_contribute {dispatch : Dispatch} {behind : Log}
    (reads : dispatch.outcome = classify dispatch.record behind)
    (text : dispatch.record.isBlank = false) :
    (dispatch.contribute view file table).recipe =
      if isPostLink dispatch.record.text then [dollar dispatch.record.text] else [] := by
  -- the text of the record alone says whether its step is a command after linking
  by_cases marks : isPostLink dispatch.record.text = true
  · rw [classify_of_isPostLink marks] at reads
    rw [contribute_of_step view file text table reads, if_pos marks]
    rfl
  · have kind : dispatch.outcome.kind? = StepKind.ofText? dispatch.record.text :=
      reads ▸ kind?_classify ..
    rw [if_neg marks]
    cases outcome : dispatch.outcome with
    | unclaimed => rw [contribute_of_unclaimed view file text table outcome]
    | skipped => rw [contribute_of_skipped view file text table outcome]
    | step found =>
      rw [contribute_of_step view file text table outcome]
      apply Step.recipe_contribute_of_ne
      rintro post
      rw [outcome, Outcome.kind?, post] at kind
      exact marks (decide_eq_true kind.symm)

theorem recipe_contributions {dispatches : List Dispatch} (reads : ∀ dispatch ∈ dispatches,
      dispatch.record.isBlank = false ∧ ∃ behind, dispatch.outcome = classify dispatch.record behind) :
    (contributions view file table dispatches).flatMap (·.recipe) =
      ((dispatches.map (·.record.text)).filter isPostLink).map dollar := by
  induction dispatches generalizing table with
  | nil => rfl
  | cons dispatch rest ih =>
    obtain ⟨text, behind, outcome⟩ := reads dispatch List.mem_cons_self
    rw [contributions, List.flatMap_cons, Dispatch.recipe_contribute outcome text,
      ih fun other member => reads other (List.mem_cons_of_mem _ member), List.map_cons,
      List.filter_cons]
    split <;> rfl

theorem Step.Asks.dollarsEven {step : Step} {site : Site} {rule : Rule}
    (asks : step.Asks view site rule)
    (entered : site.change.recipePrefix = changeTo site.change.directory) :
    DollarsEven rule.target ∧ (∀ prerequisite ∈ rule.prerequisites, DollarsEven prerequisite) ∧
      DollarsEven rule.recipe := by
  cases asks with
  | object =>
    refine ⟨dollarsEven_makeTarget _, fun prerequisite member => ?_, ?_⟩
    · obtain rfl := List.mem_singleton.1 member
      exact dollarsEven_makeTarget _
    · rw [Rule.recipe_ofObject entered]
      exact dollarsEven_dollar _
  | output linked calls escaped =>
    refine ⟨dollarsEven_makeTarget _, fun prerequisite member => ?_, ?_⟩
    · obtain ⟨path, rfl⟩ := escaped prerequisite member
      exact dollarsEven_makeTarget _
    · rw [Rule.recipe_ofLink entered]
      exact dollarsEven_dollar _

/-- With one dollar for each pair, the recipe is the command of the step in its directory. -/
theorem Step.Asks.ofDollar_recipe {step : Step} {site : Site} {rule : Rule}
    (asks : step.Asks view site rule)
    (entered : site.change.recipePrefix = changeTo site.change.directory) :
    (∃ files ∈ step.objects view, rule.target = makeTarget files.object ∧
        ofDollar rule.recipe =
          site.shellText step.command ++ " && touch ".toList ++ shell files.object) ∨
      ∃ output, step.output? = some output ∧ rule.target = makeTarget output ∧
        ofDollar rule.recipe = site.shellText site.command.text := by
  cases asks with
  | @object files made =>
    refine .inl ⟨files, made, rfl, ?_⟩
    rw [Rule.recipe_ofObject entered, ofDollar_dollar]
  | @output output _ linked =>
    refine .inr ⟨output, linked, rfl, ?_⟩
    rw [Rule.recipe_ofLink entered, ofDollar_dollar]

end

theorem dollarsEven_of_requireTargetName {name target : Text}
    (accepted : Config.requireTargetName name = .ok target) : DollarsEven name := by
  refine (Paired.of_not_mem fun member => ?_).dollarsEven
  cases Config.isNameChar_of_requireTargetName accepted member

theorem recipePrefix_of_mem_run {log : Log} {dispatch : Dispatch} {step : Step} {site : Site}
    (member : dispatch ∈ log.run) (outcome : dispatch.outcome = .step step)
    (sited : step.site? = some site) :
    site.change.recipePrefix = changeTo site.change.directory := by
  obtain ⟨behind, reads, _⟩ := Log.exists_behind_of_mem_dispatch (Log.mem_run_iff.1 member).1
  have taken : (classify dispatch.record behind).site? = some site := by
    rw [← reads, outcome, Outcome.site?, sited]
  obtain ⟨kind, _, stands⟩ := isBehind_of_site?_classify taken
  obtain ⟨operand, _, change⟩ := Option.map_eq_some_iff.1 stands.change
  rw [← change]

namespace Translation

section

variable {view : FileView} {options : TranslationOptions} {text : Text}

theorem exists_contribute_of_mem_rules {rule : Rule}
    (member : rule ∈ (ofText view options text).makefile.rules) :
    ∃ dispatch ∈ (Log.ofText text).run, ∃ step table, dispatch.outcome = .step step ∧
      rule ∈ (step.contribute view options.file table).rules := by
  rw [ofText, ofLog_eq_run, rules_makefile_ofContributions] at member
  obtain ⟨added, contributed, member⟩ := List.mem_flatMap.1 member
  obtain ⟨dispatch, dispatched, table, rfl⟩ :=
    exists_dispatch_of_mem_contributions view options.file contributed
  have nonBlank := (Log.mem_run_iff.1 dispatched).2
  cases outcome : dispatch.outcome with
  | unclaimed =>
    rw [contribute_of_unclaimed view options.file nonBlank table outcome] at member
    cases member
  | skipped =>
    rw [contribute_of_skipped view options.file nonBlank table outcome] at member
    cases member
  | step step =>
    rw [contribute_of_step view options.file nonBlank table outcome] at member
    exact ⟨dispatch, dispatched, step, table, outcome, member⟩

theorem exists_asks_of_mem_rules {rule : Rule}
    (member : rule ∈ (ofText view options text).makefile.rules) :
    ∃ dispatch ∈ (Log.ofText text).run, ∃ step site, dispatch.outcome = .step step ∧
      step.site? = some site ∧ step.Asks view site rule := by
  obtain ⟨dispatch, dispatched, step, table, outcome, added⟩ :=
    exists_contribute_of_mem_rules member
  obtain ⟨site, sited, asks⟩ := Step.asks_of_mem_contribute added
  exact ⟨dispatch, dispatched, step, site, outcome, sited, asks⟩

theorem dollarsEven_of_mem_rules {rule : Rule}
    (member : rule ∈ (ofText view options text).makefile.rules) :
    DollarsEven rule.target ∧ (∀ prerequisite ∈ rule.prerequisites, DollarsEven prerequisite) ∧
      DollarsEven rule.recipe := by
  obtain ⟨dispatch, dispatched, step, site, outcome, sited, asks⟩ :=
    exists_asks_of_mem_rules member
  exact asks.dollarsEven (recipePrefix_of_mem_run dispatched outcome sited)

theorem recipe_aggregate_ofText : (ofText view options text).makefile.aggregate.recipe =
    (((Log.ofText text).run.map (·.record.text)).filter isPostLink).map dollar := by
  have whole : (ofText view options text).makefile.aggregate.recipe = _ :=
    congrArg (·.makefile.aggregate.recipe) (ofLog_eq_run view options (Log.ofText text))
  rw [whole]
  apply recipe_contributions
  intro dispatch member
  obtain ⟨dispatched, nonBlank⟩ := Log.mem_run_iff.1 member
  obtain ⟨behind, reads, _⟩ := Log.exists_behind_of_mem_dispatch dispatched
  exact ⟨nonBlank, behind, reads⟩

theorem exists_rule_of_mem_prerequisites {product : Text}
    (member : product ∈ (ofText view options text).makefile.aggregate.prerequisites) :
    ∃ rule ∈ (ofText view options text).makefile.rules, rule.target = product := by
  have table := table_ofLog view options (Log.ofText text)
  have made : (ofText view options text).table.ProductsMade := by
    rw [ofText, table]
    exact productsMade_tableAfter _ _ _ _ RuleTable.productsMade_empty
  rw [rules_makefile_ofText]
  exact List.mem_map.1 (made product member)

end

/-- All dollars of the rules of a translation stand in pairs. With one dollar for each pair, the
recipes are the commands of the log's steps, each in its directory. -/
theorem recipes_hold_shell_texts (view : FileView) (options : TranslationOptions) (text : Text)
    {target : Text} (accepted : Config.requireTargetName options.aggregateTarget = .ok target) :
    let makefile := (ofText view options text).makefile
    let run := (Log.ofText text).run
    (∀ rule ∈ makefile.rules, DollarsEven rule.target ∧
        (∀ prerequisite ∈ rule.prerequisites, DollarsEven prerequisite) ∧
        DollarsEven rule.recipe) ∧
      DollarsEven makefile.aggregate.target ∧
      (∀ prerequisite ∈ makefile.aggregate.prerequisites, DollarsEven prerequisite) ∧
      (∀ line ∈ makefile.aggregate.recipe, DollarsEven line) ∧
      (∀ rule ∈ makefile.rules, ∃ dispatch ∈ run, ∃ step site,
        dispatch.outcome = .step step ∧ step.site? = some site ∧
        ((∃ files ∈ step.objects view, rule.target = makeTarget files.object ∧
            ofDollar rule.recipe = "cd ".toList ++ shell site.change.directory ++
              " && ".toList ++ step.command ++ " && touch ".toList ++ shell files.object) ∨
          ∃ output, step.output? = some output ∧ rule.target = makeTarget output ∧
            ofDollar rule.recipe = "cd ".toList ++ shell site.change.directory ++
              " && ".toList ++ site.command.text)) ∧
      makefile.aggregate.recipe.map ofDollar =
        (run.map (·.record.text)).filter isPostLink := by
  intro makefile run
  have recipe : makefile.aggregate.recipe = _ := recipe_aggregate_ofText
  refine ⟨fun rule => dollarsEven_of_mem_rules, dollarsEven_of_requireTargetName accepted, ?_, ?_, ?_, ?_⟩
  · -- a product is the target of a rule, so nothing new is written here
    intro product member
    obtain ⟨rule, shown, rfl⟩ := exists_rule_of_mem_prerequisites member
    exact (dollarsEven_of_mem_rules shown).1
  · intro line member
    rw [recipe] at member
    obtain ⟨command, _, rfl⟩ := List.mem_map.1 member
    exact dollarsEven_dollar command
  · intro rule member
    obtain ⟨dispatch, dispatched, step, site, outcome, sited, asks⟩ :=
      exists_asks_of_mem_rules member
    have entered := recipePrefix_of_mem_run dispatched outcome sited
    exact ⟨dispatch, dispatched, step, site, outcome, sited, asks.ofDollar_recipe entered⟩
  · rw [recipe, List.map_map]
    exact List.map_id'' ofDollar_dollar _

/-- Dollars in the names of files and in a command, single and double. -/
theorem recipes_hold_shell_texts_with_dollars :
    let options : TranslationOptions := { capturedAt := [], aggregateTarget := "all".toList }
    let text := "CompileC $a.o b.c normal\ncd /$d\ncc $$(x)\n/usr/bin/touch $o".toList
    let makefile := (ofText ⟨"/".toList, fun _ => .error []⟩ options text).makefile
    Config.requireTargetName options.aggregateTarget = .ok "all".toList ∧
      makefile.rules.map (·.recipe) = ["cd /\\$$d && cc $$$$(x) && touch \\$$a.o".toList] ∧
      (∀ rule ∈ makefile.rules, DollarsEven rule.recipe) ∧
      makefile.aggregate.recipe.map ofDollar = ["/usr/bin/touch $o".toList] := by
  intro options text makefile
  have accepted : Config.requireTargetName options.aggregateTarget = .ok "all".toList :=
    Config.requireTargetName_eq_ok_iff.2 ⟨rfl, by decide⟩
  obtain ⟨even, _, _, _, _, lines⟩ := recipes_hold_shell_texts _ options text accepted
  exact ⟨accepted, by decide +kernel, fun rule member => (even rule member).2.2,
    lines.trans (by decide +kernel)⟩

end Translation

end MakeRules
