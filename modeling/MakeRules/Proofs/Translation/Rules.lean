import MakeRules.Proofs.Makefile.Blocks
import MakeRules.Proofs.Rule.Table
import MakeRules.Proofs.Translation.Run

/-! The rules that a makefile shows are the rules of its table.

A record adds to the table just the rules that follow its comment, and a product
only after the rule that makes it.
-/

set_option autoImplicit false

namespace MakeRules

/-- What a contribution does to the table that it is made to. -/
structure Contribution.Extends (table : RuleTable) (added : Contribution) : Prop where
  rules : added.table.rules = table.rules ++ added.rules
  products : table.ProductsMade → added.table.ProductsMade

namespace Contribution

variable {table : RuleTable}

theorem extends_self (added : Contribution) (same : added.table = table) (none : added.rules = []) :
    added.Extends table where
  rules := by rw [same, none, List.append_nil]
  products := by rw [same]; exact id

theorem extends_ofRules (rules : List Rule) : (ofRules table rules).Extends table where
  rules := table.rules_registerAll rules
  products := fun made => made.registerAll rules

theorem extends_ofLink (site : Site) (output : Text) (prerequisites : List Text) :
    (ofLink table site output prerequisites).Extends table where
  rules := by
    have registered := table.rules_registerAll [Rule.ofLink site output prerequisites]
    simp only [RuleTable.registerAll, List.foldl_cons, List.foldl_nil] at registered
    simp only [ofLink]
    split <;> simp [registered]
  products := by
    intro made
    have linked := made.register (Rule.ofLink site output prerequisites)
    simp only [ofLink]
    split
    · exact linked
    · exact linked.addLinkedProduct ((RuleTable.mem_targets_register _).2 (.inr rfl))

end Contribution

theorem Step.extends_contribute (view : FileView) (file : Text) (table : RuleTable) (step : Step) :
    (step.contribute view file table).Extends table := by
  unfold contribute
  split
  · exact Contribution.extends_ofRules _
  · exact Contribution.extends_ofRules _
  · exact Contribution.extends_self _ rfl rfl
  · split
    · exact Contribution.extends_self _ rfl rfl
    · exact Contribution.extends_ofRules _
  · next site output =>
    have linked : (Contribution.ofLink table site output []).Extends table :=
      Contribution.extends_ofLink ..
    exact ⟨linked.rules, linked.products⟩
  · dsimp only
    split
    · exact Contribution.extends_self _ rfl rfl
    · exact Contribution.extends_ofLink ..
  · exact Contribution.extends_self _ rfl rfl

theorem Dispatch.extends_contribute (view : FileView) (file : Text) (table : RuleTable)
    (dispatch : Dispatch) : (dispatch.contribute view file table).Extends table := by
  unfold contribute
  split
  · exact Contribution.extends_self _ rfl rfl
  · cases dispatch.outcome with
    | step found =>
      have added := found.extends_contribute view file table
      exact ⟨added.rules, added.products⟩
    | _ => exact Contribution.extends_self _ rfl rfl

section

variable (view : FileView) (file : Text) (table : RuleTable) (dispatches : List Dispatch)

theorem rules_tableAfter :
    (tableAfter view file table dispatches).rules =
      table.rules ++ (contributions view file table dispatches).flatMap (·.rules) := by
  induction dispatches generalizing table with
  | nil => exact (List.append_nil _).symm
  | cons dispatch rest ih =>
    rw [tableAfter, ih, (dispatch.extends_contribute view file table).rules, contributions,
      List.flatMap_cons, List.append_assoc]

theorem productsMade_tableAfter (made : table.ProductsMade) :
    (tableAfter view file table dispatches).ProductsMade := by
  induction dispatches generalizing table with
  | nil => exact made
  | cons dispatch rest ih =>
    exact ih _ ((dispatch.extends_contribute view file table).products made)

end

namespace Translation

variable (view : FileView) (options : TranslationOptions)

theorem table_ofLog (log : Log) :
    (ofLog view options log).table = tableAfter view options.file {} log.dispatch :=
  getLast?_contributions view options.file {} log.dispatch

theorem rules_makefile_ofText (text : Text) :
    (ofText view options text).makefile.rules = (ofText view options text).rules := by
  have shown : (ofText view options text).makefile.rules = _ := rules_makefile_ofContributions ..
  have table : (ofText view options text).table = _ := table_ofLog ..
  rw [shown, rules, table, rules_tableAfter]
  rfl

/-- The makefile and the table of a translation keep in step. Between the header and the aggregate
rule, the text has comments and one block for each rule of the table, in order. The aggregate rule
asks for the products of the table, each of which some rule makes. -/
theorem makefile_shows_table (text : Text) :
    let translation := ofText view options text
    let makefile := translation.makefile
    translation.text = Makefile.headerText makefile.header makefile.aggregate.target ++
        makefile.entries.flatMap Makefile.entryText ++
        Makefile.aggregateText ⟨options.aggregateTarget, translation.linkedProducts,
          makefile.aggregate.recipe⟩ ∧
      (∀ text ∈ makefile.comments,
        (Makefile.comment text).head? = some '#' ∧ '\n' ∉ Makefile.comment text) ∧
      makefile.rules = translation.rules ∧
      (translation.rules.map (·.target)).Nodup ∧
      makefile.aggregate.prerequisites = translation.linkedProducts ∧
      translation.linkedProducts.Nodup ∧
      ∀ product ∈ translation.linkedProducts,
        ¬ ".o".toList <:+ product ∧ product ∈ translation.rules.map (·.target) := by
  intro translation makefile
  refine ⟨makefile.render_eq_texts,
    fun text _ => ⟨Makefile.head?_comment text, Makefile.lf_not_mem_comment text⟩, ?_,
    translation.table.targets_nodup, rfl, translation.table.linkedProducts_nodup,
    fun product member => ⟨?_, ?_⟩⟩
  · have shown : makefile.rules = _ := rules_makefile_ofContributions ..
    have table : translation.table = _ := table_ofLog ..
    rw [shown, rules, table, rules_tableAfter]
    rfl
  · have other := translation.table.linkedProducts_not_object product member
    simpa [isObjectFile, objectSuffix] using other
  · have made : translation.table.ProductsMade := by
      have table : translation.table = _ := table_ofLog ..
      rw [table]
      exact productsMade_tableAfter _ _ _ _ RuleTable.productsMade_empty
    exact made product member

end Translation

end MakeRules
