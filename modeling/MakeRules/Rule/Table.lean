import MakeRules.Rule.Basic

/-! The rules of a translation, one for a target, and the products that it links.

The first rule of a target is kept, as make keeps one recipe for a target. An
object file is never a linked product.
-/

set_option autoImplicit false

namespace MakeRules

theorem nodup_concat {α : Type} {l : List α} {a : α} (nodup : l.Nodup) (new : a ∉ l) :
    (l ++ [a]).Nodup := by
  rw [List.nodup_append]
  exact ⟨nodup, by simp, by grind⟩

/-- Rules and linked products, each in the order in which they came. -/
structure RuleTable where
  rules : List Rule := []
  linkedProducts : List Text := []
  targets_nodup : (rules.map (·.target)).Nodup := by simp
  linkedProducts_nodup : linkedProducts.Nodup := by simp
  linkedProducts_not_object : ∀ target ∈ linkedProducts, ¬ isObjectFile target := by simp

namespace RuleTable

def get? (table : RuleTable) (target : Text) : Option Rule :=
  table.rules.find? (·.target == target)

def has (table : RuleTable) (target : Text) : Bool :=
  (table.get? target).isSome

def size (table : RuleTable) : Nat :=
  table.rules.length

theorem has_iff (table : RuleTable) (target : Text) :
    table.has target ↔ target ∈ table.rules.map (·.target) := by
  simp [has, get?]

/-- Add a rule, unless its target has one. -/
def register (table : RuleTable) (rule : Rule) : RuleTable :=
  if taken : table.has rule.target then table
  else
    { table with
      rules := table.rules ++ [rule]
      targets_nodup := by
        rw [has_iff] at taken
        simpa using nodup_concat table.targets_nodup taken }

theorem rules_register (table : RuleTable) (rule : Rule) :
    (table.register rule).rules =
      if table.has rule.target then table.rules else table.rules ++ [rule] := by
  unfold register
  split <;> simp_all

@[simp] theorem linkedProducts_register (table : RuleTable) (rule : Rule) :
    (table.register rule).linkedProducts = table.linkedProducts := by
  unfold register
  split <;> rfl

/-- Whether a target would be a new linked product. -/
def acceptsProduct (table : RuleTable) (target : Text) : Bool :=
  !isObjectFile target && !table.linkedProducts.contains target

/-- Add a linked product, unless it is there or is an object file. -/
def addLinkedProduct (table : RuleTable) (target : Text) : RuleTable :=
  if accepted : table.acceptsProduct target then
    { table with
      linkedProducts := table.linkedProducts ++ [target]
      linkedProducts_nodup := nodup_concat table.linkedProducts_nodup (by
        simp only [acceptsProduct, Bool.and_eq_true, Bool.not_eq_true'] at accepted
        simpa using accepted.2)
      linkedProducts_not_object := by
        simp only [acceptsProduct, Bool.and_eq_true, Bool.not_eq_true'] at accepted
        intro product member
        rcases List.mem_append.1 member with earlier | new
        · exact table.linkedProducts_not_object product earlier
        · simp [List.mem_singleton.1 new, accepted.1] }
  else table

@[simp] theorem rules_addLinkedProduct (table : RuleTable) (target : Text) :
    (table.addLinkedProduct target).rules = table.rules := by
  unfold addLinkedProduct
  split <;> rfl

theorem linkedProducts_addLinkedProduct (table : RuleTable) (target : Text) :
    (table.addLinkedProduct target).linkedProducts =
      if table.acceptsProduct target then table.linkedProducts ++ [target]
      else table.linkedProducts := by
  unfold addLinkedProduct
  split <;> simp_all

def registerAll (table : RuleTable) (rules : List Rule) : RuleTable :=
  rules.foldl register table

/-- The rules of a list that would be added, in order: of those with new targets,
the first of each target. -/
def newRules (table : RuleTable) : List Rule → List Rule
  | [] => []
  | rule :: rest =>
    if table.has rule.target then newRules table rest
    else rule :: newRules (table.register rule) rest

theorem rules_registerAll (table : RuleTable) (rules : List Rule) :
    (table.registerAll rules).rules = table.rules ++ table.newRules rules := by
  induction rules generalizing table with
  | nil => simp [registerAll, newRules]
  | cons rule rest ih =>
    have step := ih (table.register rule)
    simp only [registerAll, List.foldl_cons] at step ⊢
    by_cases taken : table.has rule.target
    · have same : table.register rule = table := by simp [register, taken]
      simp only [same] at step ⊢
      simpa [newRules, taken] using step
    · simp [step, rules_register, newRules, taken]

@[simp] theorem linkedProducts_registerAll (table : RuleTable) (rules : List Rule) :
    (table.registerAll rules).linkedProducts = table.linkedProducts := by
  induction rules generalizing table with
  | nil => rfl
  | cons rule rest ih => simpa [registerAll] using ih (table.register rule)

end RuleTable

end MakeRules
