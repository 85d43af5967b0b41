import MakeRules.Proofs.Rule.Paths
import MakeRules.Rule.Call
import Mathlib.Data.Finset.Card

/-! What a table holds after any calls, and what it answers.

The table is an account of the calls made so far: of the rules that were registered it holds the
first of each target, and of the products that were added each one once. Each call is answered out
of that account, so an answer says whether the call added to it, or what it holds.
-/

set_option autoImplicit false

namespace MakeRules.RuleTable

namespace Call

def rule? : Call → Option Rule
  | .register rule => some rule
  | _ => none

def product? : Call → Option Text
  | .addLinkedProduct target => some target
  | _ => none

end Call

/-- The rules that calls hand over, be they kept or not. -/
def registered (calls : List Call) : List Rule :=
  calls.filterMap Call.rule?

/-- The products that calls hand over, be they kept or not. -/
def added (calls : List Call) : List Text :=
  calls.filterMap Call.product?

/-- The table behind calls made one after the other. -/
def afterAll (table : RuleTable) (calls : List Call) : RuleTable :=
  calls.foldl after table

/-- Calls with their answers. -/
def answered (table : RuleTable) : List Call → List (Call × Answer)
  | [] => []
  | call :: later => (call, table.answer call) :: answered (table.after call) later

/-- The rule of a call that is told that it is kept. -/
def keptRule? : Call × Answer → Option Rule
  | (.register rule, .kept true) => some rule
  | _ => none

/-- The product of a call that is told that it is kept. -/
def keptProduct? : Call × Answer → Option Text
  | (.addLinkedProduct target, .kept true) => some target
  | _ => none

/-- What a call is to be answered after others. -/
def expected (earlier : List Call) : Call → Answer
  | .register rule => .kept (decide (rule.target ∉ (registered earlier).map (·.target)))
  | .has target => .known (decide (target ∈ (registered earlier).map (·.target)))
  | .get target => .found ((registered earlier).find? (·.target == target))
  | .addLinkedProduct target =>
    .kept (decide (isObjectFile target = false ∧ target ∉ added earlier))

/-- A table as the account of the calls that were made of it. -/
structure Reflects (table : RuleTable) (calls : List Call) : Prop where
  /-- Of the rules with one target the first is kept, in the order in which they came. -/
  rules : table.rules = (registered calls).eraseDupsBy Rule.sameTarget
  size : table.size = ((registered calls).map (·.target)).toFinset.card
  get : ∀ target, table.get? target = (registered calls).find? (·.target == target)
  has : ∀ target, table.has target = true ↔ ∃ rule, table.get? target = some rule
  products : table.linkedProducts = ((added calls).filter (!isObjectFile ·)).eraseDups
  answer : ∀ call, table.answer call = expected calls call
  /-- A rule that is found stays the one that is found. -/
  stays : ∀ target rule, table.get? target = some rule →
    ∀ later, (table.afterAll later).get? target = some rule
  /-- Only a registration changes the rules, and only an addition the products. -/
  apart : ∀ call, (call.rule? = none → (table.after call).rules = table.rules) ∧
    (call.product? = none → (table.after call).linkedProducts = table.linkedProducts)

section

variable (table : RuleTable)

theorem rules_after_of_rule?_eq_none {call : Call} (other : call.rule? = none) :
    (table.after call).rules = table.rules := by
  cases call with
  | register rule => cases other
  | has | get => rfl
  | addLinkedProduct target => exact table.rules_addLinkedProduct target

theorem linkedProducts_after_of_product?_eq_none {call : Call} (other : call.product? = none) :
    (table.after call).linkedProducts = table.linkedProducts := by
  cases call with
  | register rule => exact table.linkedProducts_register rule
  | has | get => rfl
  | addLinkedProduct target => cases other

/-- Whether a rule is kept is decided by the rules alone. -/
theorem rules_register_congr {first second : RuleTable} (same : first.rules = second.rules)
    (rule : Rule) : (first.register rule).rules = (second.register rule).rules := by
  have agree : first.has rule.target = second.has rule.target := by rw [has, has, get?, get?, same]
  rw [rules_register, rules_register, agree, same]

/-- The rules are those that the registrations leave without the other calls. -/
theorem rules_afterAll {first second : RuleTable} (same : first.rules = second.rules)
    (calls : List Call) :
    (first.afterAll calls).rules = (second.registerAll (registered calls)).rules := by
  induction calls generalizing first second with
  | nil => exact same
  | cons call later ih =>
    cases call with
    | register rule => exact ih (rules_register_congr same rule)
    | has | get => exact ih same
    | addLinkedProduct target => exact ih ((first.rules_addLinkedProduct target).trans same)

theorem get?_afterAll (calls : List Call) (target : Text) :
    (table.afterAll calls).get? target =
      (table.get? target).or ((registered calls).find? (·.target == target)) := by
  induction calls generalizing table with
  | nil => simp [afterAll, registered]
  | cons call later ih =>
    have behind : (table.afterAll (call :: later)).get? target = _ := ih (table.after call)
    rw [behind]
    cases call with
    | register rule =>
      rw [after, get?_register, Option.or_assoc]
      by_cases own : target = rule.target
      · simp [registered, Call.rule?, own]
      · simp [registered, Call.rule?, own, Ne.symm own]
    | has | get => rfl
    | addLinkedProduct product =>
      rw [after, get?, rules_addLinkedProduct]
      rfl

theorem linkedProducts_afterAll (calls : List Call) :
    (table.afterAll calls).linkedProducts =
      (table.linkedProducts ++ (added calls).filter (!isObjectFile ·)).eraseDups := by
  induction calls generalizing table with
  | nil => simp [afterAll, added, eraseDups_of_nodup table.linkedProducts_nodup]
  | cons call later ih =>
    have behind : (table.afterAll (call :: later)).linkedProducts = _ := ih (table.after call)
    rw [behind]
    cases call with
    | register rule => rw [after, linkedProducts_register]; rfl
    | has | get => rfl
    | addLinkedProduct target =>
      have first : added (.addLinkedProduct target :: later) = target :: added later := rfl
      rw [after, first, List.filter_cons]
      cases object : isObjectFile target with
      | true => rw [addLinkedProduct_of_isObjectFile table object]; rfl
      | false => exact eraseDups_addLinkedProduct_append table object _

theorem acceptsProduct_iff (target : Text) :
    table.acceptsProduct target = true ↔
      isObjectFile target = false ∧ target ∉ table.linkedProducts := by
  simp [acceptsProduct]

/-- The rules that calls are told to be kept are those that come to the rules of the table. -/
theorem rules_append_kept (calls : List Call) :
    table.rules ++ (table.answered calls).filterMap keptRule? = (table.afterAll calls).rules := by
  induction calls generalizing table with
  | nil => exact List.append_nil _
  | cons call later ih =>
    have behind : _ = (table.afterAll (call :: later)).rules := ih (table.after call)
    rw [← behind, answered]
    cases call with
    | register rule =>
      rw [after, rules_register, answer]
      cases table.has rule.target with
      | true => rfl
      | false => exact List.append_cons ..
    | has | get => rfl
    | addLinkedProduct target => rw [after, rules_addLinkedProduct]; rfl

theorem linkedProducts_append_kept (calls : List Call) :
    table.linkedProducts ++ (table.answered calls).filterMap keptProduct? =
      (table.afterAll calls).linkedProducts := by
  induction calls generalizing table with
  | nil => exact List.append_nil _
  | cons call later ih =>
    have behind : _ = (table.afterAll (call :: later)).linkedProducts := ih (table.after call)
    rw [← behind, answered]
    cases call with
    | register rule => rw [after, linkedProducts_register]; rfl
    | has | get => rfl
    | addLinkedProduct target =>
      rw [after, linkedProducts_addLinkedProduct, answer]
      cases table.acceptsProduct target with
      | true => exact List.append_cons ..
      | false => rfl

end

section

variable (calls : List Call)

theorem get?_afterAll_empty (target : Text) :
    (afterAll {} calls).get? target = (registered calls).find? (·.target == target) :=
  get?_afterAll {} calls target

theorem has_afterAll_empty (target : Text) :
    (afterAll {} calls).has target = decide (target ∈ (registered calls).map (·.target)) := by
  rw [has, get?_afterAll_empty, Bool.eq_iff_iff]
  simp

theorem linkedProducts_afterAll_empty :
    (afterAll {} calls).linkedProducts = ((added calls).filter (!isObjectFile ·)).eraseDups :=
  linkedProducts_afterAll {} calls

theorem rules_afterAll_empty :
    (afterAll {} calls).rules = (registered calls).eraseDupsBy Rule.sameTarget := by
  have new : (registered calls).filter (fun rule => !has {} rule.target) = registered calls :=
    List.filter_eq_self.2 fun _ _ => rfl
  rw [rules_afterAll rfl, rules_registerAll, newRules_eq, new]
  rfl

theorem size_afterAll_empty :
    (afterAll {} calls).size = ((registered calls).map (·.target)).toFinset.card := by
  have length : (afterAll {} calls).size = ((afterAll {} calls).rules.map (·.target)).length :=
    (List.length_map _).symm
  rw [length, ← List.toFinset_card_of_nodup (afterAll {} calls).targets_nodup]
  congr 1
  ext target
  rw [List.mem_toFinset, List.mem_toFinset, ← has_iff, has_afterAll_empty, decide_eq_true_iff]

theorem answer_afterAll_empty (call : Call) :
    (afterAll {} calls).answer call = expected calls call := by
  cases call with
  | register rule => rw [answer, expected, has_afterAll_empty, decide_not]
  | has target => rw [answer, expected, has_afterAll_empty]
  | get target => rw [answer, expected, get?_afterAll_empty]
  | addLinkedProduct target =>
    have listed : target ∈ (afterAll {} calls).linkedProducts ↔
        target ∈ added calls ∧ isObjectFile target = false := by
      rw [linkedProducts_afterAll_empty, List.mem_eraseDups, List.mem_filter, Bool.not_eq_true']
    rw [answer, expected]
    congr 1
    rw [Bool.eq_iff_iff, decide_eq_true_iff, acceptsProduct_iff, listed]
    tauto

/-- A new table reflects whatever calls are made of it, and those calls are told to be kept whose
rule or product it holds then. -/
theorem reflects_calls :
    (afterAll {} calls).Reflects calls ∧
      (answered {} calls).filterMap keptRule? = (afterAll {} calls).rules ∧
      (answered {} calls).filterMap keptProduct? = (afterAll {} calls).linkedProducts := by
  refine ⟨?_, rules_append_kept {} calls, linkedProducts_append_kept {} calls⟩
  exact {
    rules := rules_afterAll_empty calls
    size := size_afterAll_empty calls
    get := get?_afterAll_empty calls
    has := fun target => Option.isSome_iff_exists
    products := linkedProducts_afterAll_empty calls
    answer := answer_afterAll_empty calls
    stays := fun target rule found later => by rw [get?_afterAll, found, Option.some_or]
    apart := fun call =>
      ⟨rules_after_of_rule?_eq_none _, linkedProducts_after_of_product?_eq_none _⟩ }

end

end MakeRules.RuleTable
