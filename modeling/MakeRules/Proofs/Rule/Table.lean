import MakeRules.Rule.Table
import Mathlib.Data.List.Basic
import Mathlib.Data.List.Induction

/-! What a table holds after rules are added to it.

The rules that are new to a table are the first of each target without one. A product
added behind the rule that makes it keeps every product made by a rule.
-/

set_option autoImplicit false

namespace MakeRules

section

variable {α β : Type}

/-- Induction along the erasing of duplicates: what is the same as the first goes before the rest
is looked at. -/
theorem eraseDupsBy_induction (same : α → α → Bool) {motive : List α → Prop} (nil : motive [])
    (cons : ∀ a l, motive (l.filter fun b => same b a = false) → motive (a :: l)) (l : List α) :
    motive l := by
  induction length : l.length using Nat.strongRecOn generalizing l with
  | ind count ih =>
    cases l with
    | nil => exact nil
    | cons a l =>
      have kept := List.length_filter_le (fun b => decide (same b a = false)) l
      rw [List.length_cons] at length
      exact cons a l (ih _ (by omega) _ rfl)

theorem map_eraseDupsBy {f : α → β} {same : α → α → Bool} {same' : β → β → Bool}
    (agree : ∀ a b, same' (f a) (f b) = same a b) (l : List α) :
    (l.map f).eraseDupsBy same' = (l.eraseDupsBy same).map f := by
  induction l using eraseDupsBy_induction same with
  | nil => rfl
  | cons a l ih =>
    have kept : (l.map f).filter (fun b => same' b (f a) = false) =
        (l.filter fun b => same b a = false).map f := by
      simp only [List.filter_map, Function.comp_def, agree]
    rw [List.map_cons, List.eraseDupsBy_cons, List.eraseDupsBy_cons, List.map_cons, kept, ih]

theorem eraseDupsBy_sublist (same : α → α → Bool) (l : List α) :
    (l.eraseDupsBy same).Sublist l := by
  induction l using eraseDupsBy_induction same with
  | nil => exact .slnil
  | cons a l ih =>
    rw [List.eraseDupsBy_cons]
    exact (ih.trans List.filter_sublist).cons_cons a

/-- What is kept stands before all else that has its key. -/
theorem eq_or_rel_of_mem_eraseDupsBy [BEq β] [LawfulBEq β] {key : α → β} {before : α → α → Prop}
    {l : List α} (pairwise : l.Pairwise before) {a b : α}
    (kept : a ∈ l.eraseDupsBy fun first second => key first == key second) (member : b ∈ l)
    (shared : key b = key a) : a = b ∨ before a b := by
  induction l using eraseDupsBy_induction fun first second => key first == key second with
  | nil => cases member
  | cons first l ih =>
    obtain ⟨least, pairwise⟩ := List.pairwise_cons.1 pairwise
    rw [List.eraseDupsBy_cons] at kept
    rcases List.mem_cons.1 kept with rfl | later
    · exact (List.mem_cons.1 member).imp Eq.symm (least b)
    · have other := (List.mem_filter.1 ((eraseDupsBy_sublist _ _).subset later)).2
      have behind : b ∈ l.filter fun b => (key b == key first) = false := by
        rw [← shared] at other
        refine List.mem_filter.2 ⟨(List.mem_cons.1 member).resolve_left ?_, other⟩
        rintro rfl
        simp at other
      exact ih (pairwise.sublist List.filter_sublist) later behind

end

section

variable {α : Type} [BEq α] [LawfulBEq α]

theorem nodup_eraseDups (l : List α) : l.eraseDups.Nodup := by
  induction l using eraseDupsBy_induction fun b a : α => b == a with
  | nil => exact List.nodup_nil
  | cons a l ih =>
    have fresh : a ∉ (l.filter fun b => (b == a) = false).eraseDups := by
      simp [List.mem_eraseDups]
    rw [List.eraseDups] at fresh ih ⊢
    rw [List.eraseDupsBy_cons]
    exact List.nodup_cons.2 ⟨fresh, ih⟩

theorem eraseDups_of_nodup {l : List α} (nodup : l.Nodup) : l.eraseDups = l := by
  induction l with
  | nil => rfl
  | cons a l ih =>
    obtain ⟨new, nodup⟩ := List.nodup_cons.1 nodup
    have kept : l.filter (fun b => !b == a) = l := by
      rw [List.filter_eq_self]
      intro b member
      have other : b ≠ a := ne_of_mem_of_not_mem member new
      simpa using other
    rw [List.eraseDups_cons, kept, ih nodup]

/-- Repetitions may be dropped before or after a choice. -/
theorem eraseDups_filter (chosen : α → Bool) (l : List α) :
    (l.filter chosen).eraseDups = l.eraseDups.filter chosen := by
  induction l using eraseDupsBy_induction fun b a : α => b == a with
  | nil => rfl
  | cons a l ih =>
    have others : (l.filter fun b => !b == a).filter chosen =
        (l.filter chosen).filter fun b => !b == a := by
      simp only [List.filter_filter, Bool.and_comm]
    have ih : ((l.filter fun b => !b == a).filter chosen).eraseDups =
        (l.filter fun b => !b == a).eraseDups.filter chosen := by simpa using ih
    rw [List.eraseDups_cons, List.filter_cons, List.filter_cons]
    split
    · rw [List.eraseDups_cons, ← others, ih]
    · next left =>
      rw [← ih, others]
      congr 1
      rw [eq_comm, List.filter_eq_self]
      rintro b member
      have different : b ≠ a := by
        rintro rfl
        exact left (List.of_mem_filter member)
      simpa using different

/-- What is kept stands in the order in which it comes first. -/
theorem pairwise_idxOf_eraseDups (l : List α) :
    l.eraseDups.Pairwise fun a b => l.idxOf a < l.idxOf b := by
  induction l using List.reverseRecOn with
  | nil => exact .nil
  | append_singleton l a ih =>
    have same : l.eraseDups.Pairwise fun b c => (l ++ [a]).idxOf b < (l ++ [a]).idxOf c := by
      refine ih.imp_of_mem fun kept kept' before => ?_
      rwa [List.idxOf_append_of_mem (List.mem_eraseDups.1 kept),
        List.idxOf_append_of_mem (List.mem_eraseDups.1 kept')]
    rw [List.eraseDups_append]
    by_cases repeated : a ∈ l
    · simpa [List.removeAll, repeated] using same
    · have kept : ([a].removeAll l).eraseDups = [a] := by
        simp [List.removeAll, repeated, List.eraseDups_cons]
      rw [kept, List.pairwise_append]
      refine ⟨same, List.pairwise_singleton .., ?_⟩
      rintro b member c last
      obtain rfl := List.mem_singleton.1 last
      have before := List.mem_eraseDups.1 member
      rw [List.idxOf_append_of_mem before, List.idxOf_append_of_notMem repeated]
      have within := List.idxOf_lt_length_of_mem before
      omega

end

def Rule.sameTarget (first second : Rule) : Bool :=
  first.target == second.target

namespace RuleTable

variable {table : RuleTable}

theorem mem_targets_register (rule : Rule) {target : Text} :
    target ∈ (table.register rule).rules.map (·.target) ↔
      target ∈ table.rules.map (·.target) ∨ target = rule.target := by
  rw [rules_register]
  by_cases taken : table.has rule.target = true
  · rw [if_pos taken]
    refine ⟨.inl, ?_⟩
    rintro (member | rfl)
    · exact member
    · exact (table.has_iff _).1 taken
  · simp [taken]

theorem has_register (rule : Rule) (target : Text) :
    (table.register rule).has target = (table.has target || target == rule.target) := by
  rw [Bool.eq_iff_iff, has_iff, mem_targets_register, Bool.or_eq_true, has_iff, beq_iff_eq]

theorem newRules_eq (table : RuleTable) (rules : List Rule) :
    table.newRules rules =
      (rules.filter fun rule => !table.has rule.target).eraseDupsBy Rule.sameTarget := by
  induction rules generalizing table with
  | nil => rfl
  | cons rule rest ih =>
    cases taken : table.has rule.target with
    | true => simp [newRules, taken, ih]
    | false =>
      have later : rest.filter (fun other => !(table.register rule).has other.target) =
          (rest.filter fun other => !table.has other.target).filter
            fun other => Rule.sameTarget other rule = false := by
        rw [List.filter_filter]
        apply List.filter_congr
        intro other _
        rw [has_register, Rule.sameTarget]
        cases table.has other.target <;> cases other.target == rule.target <;> rfl
      simp only [newRules, taken, List.filter_cons, Bool.not_false, Bool.false_eq_true, if_true,
        if_false, List.eraseDupsBy_cons, ih, later]

theorem newRules_map {α : Type} {rule : α → Rule} {same : α → α → Bool}
    (agree : ∀ a b, Rule.sameTarget (rule a) (rule b) = same a b) (table : RuleTable)
    (l : List α) :
    table.newRules (l.map rule) =
      ((l.filter fun a => !table.has (rule a).target).eraseDupsBy same).map rule := by
  rw [newRules_eq, List.filter_map, map_eraseDupsBy agree]
  rfl

theorem mem_of_mem_newRules {rules : List Rule} {rule : Rule}
    (member : rule ∈ table.newRules rules) : rule ∈ rules := by
  induction rules generalizing table with
  | nil => cases member
  | cons first rest ih =>
    rw [newRules] at member
    split at member
    · exact List.mem_cons_of_mem _ (ih member)
    · rcases List.mem_cons.1 member with rfl | later
      · exact List.mem_cons_self
      · exact List.mem_cons_of_mem _ (ih later)

theorem mem_targets_registerAll (rules : List Rule) {target : Text} :
    target ∈ (table.registerAll rules).rules.map (·.target) ↔
      target ∈ table.rules.map (·.target) ∨ target ∈ rules.map (·.target) := by
  induction rules generalizing table with
  | nil => simp [registerAll]
  | cons rule rest ih =>
    have first : table.registerAll (rule :: rest) = (table.register rule).registerAll rest := rfl
    rw [first, ih, mem_targets_register, List.map_cons, List.mem_cons, or_assoc]

theorem linkedProducts_isPrefix_addLinkedProduct (table : RuleTable) (target : Text) :
    table.linkedProducts <+: (table.addLinkedProduct target).linkedProducts := by
  rw [linkedProducts_addLinkedProduct]
  split
  · exact List.prefix_append ..
  · exact List.prefix_rfl

/-- A target is a new product unless it is one already, so of several the first of each counts. -/
theorem eraseDups_addLinkedProduct_append (table : RuleTable) {target : Text}
    (product : isObjectFile target = false) (later : List Text) :
    ((table.addLinkedProduct target).linkedProducts ++ later).eraseDups =
      (table.linkedProducts ++ target :: later).eraseDups := by
  rw [linkedProducts_addLinkedProduct, acceptsProduct, product]
  by_cases listed : target ∈ table.linkedProducts
  · have dropped : (target :: later).removeAll table.linkedProducts =
        later.removeAll table.linkedProducts := by
      rw [List.removeAll, List.filter_cons_of_neg (by simpa using listed)]
      rfl
    simp [List.eraseDups_append, dropped, listed]
  · simp [listed]

/-- Every product is made by a rule. -/
def ProductsMade (table : RuleTable) : Prop :=
  ∀ product ∈ table.linkedProducts, product ∈ table.rules.map (·.target)

theorem productsMade_empty : ProductsMade {} := by
  intro product member
  cases member

theorem ProductsMade.registerAll (made : table.ProductsMade) (rules : List Rule) :
    (table.registerAll rules).ProductsMade := by
  intro product member
  rw [linkedProducts_registerAll] at member
  rw [rules_registerAll, List.map_append]
  exact List.mem_append_left _ (made product member)

theorem ProductsMade.register (made : table.ProductsMade) (rule : Rule) :
    (table.register rule).ProductsMade := by
  intro product member
  rw [linkedProducts_register] at member
  exact (mem_targets_register rule).2 (.inl (made product member))

theorem ProductsMade.addLinkedProduct (made : table.ProductsMade) {target : Text}
    (rule : target ∈ table.rules.map (·.target)) : (table.addLinkedProduct target).ProductsMade := by
  intro product member
  rw [linkedProducts_addLinkedProduct] at member
  rw [rules_addLinkedProduct]
  split at member
  · rcases List.mem_append.1 member with earlier | new
    · exact made product earlier
    · exact List.mem_singleton.1 new ▸ rule
  · exact made product member

end RuleTable

end MakeRules
