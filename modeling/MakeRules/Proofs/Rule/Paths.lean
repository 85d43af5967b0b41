import MakeRules.Proofs.Escape.Decoding
import MakeRules.Proofs.Rule.OfStep

/-! Paths in a table of targets.

A table knows paths by their written forms only. No two paths share a form, so rules, prerequisites
and products are told apart as their paths are. And a form ends like its path, so it makes no
difference on which of the two an object is recognised.
-/

set_option autoImplicit false

namespace MakeRules

open Escape

namespace RuleTable

variable (table : RuleTable)

/-- A new rule is found for its target, unless there was one before. -/
theorem get?_register (rule : Rule) (target : Text) :
    (table.register rule).get? target =
      (table.get? target).or (if target = rule.target then some rule else none) := by
  by_cases taken : table.has rule.target = true
  · have same : table.register rule = table := by simp [register, taken]
    rw [same]
    split
    · next own =>
      rw [has, ← own, Option.isSome_iff_exists] at taken
      obtain ⟨earlier, found⟩ := taken
      rw [found, Option.some_or]
    · rw [Option.or_none]
  · rw [get?, rules_register, if_neg taken, List.find?_append, get?]
    congr 1
    by_cases own : target = rule.target
    · simp [own]
    · simp [own, Ne.symm own]

theorem mem_linkedProducts_addLinkedProduct (target product : Text) :
    product ∈ (table.addLinkedProduct target).linkedProducts ↔
      product ∈ table.linkedProducts ∨ product = target ∧ isObjectFile target = false := by
  rw [linkedProducts_addLinkedProduct, acceptsProduct]
  by_cases listed : target ∈ table.linkedProducts <;> cases object : isObjectFile target <;> grind

theorem addLinkedProduct_of_isObjectFile {target : Text} (object : isObjectFile target = true) :
    table.addLinkedProduct target = table := by
  simp [addLinkedProduct, acceptsProduct, object]

end RuleTable

/-- The output of a link is tested for an object as a path, and again as a target. The first test
changes nothing. -/
theorem Contribution.table_ofLink (table : RuleTable) (site : Site) (output : Text)
    (prerequisites : List Text) :
    (ofLink table site output prerequisites).table =
      (table.register (Rule.ofLink site output prerequisites)).addLinkedProduct
        (makeTarget output) := by
  simp only [ofLink]
  split
  · next object =>
    rw [RuleTable.addLinkedProduct_of_isObjectFile]
    rw [isObjectFile_makeTarget, object]
  · rfl

/-- A table of targets does as one of paths would. -/
structure RuleTable.TellsPathsApart (table : RuleTable) : Prop where
  /-- A rule that is registered for a path is found for that path and for no other. -/
  rules : ∀ (rule : Rule) (path other : Text),
    let written := { rule with target := makeTarget path }
    (table.register written).get? (makeTarget other) =
      (table.get? (makeTarget other)).or (if other = path then some written else none)
  /-- A link has one prerequisite for each path of its list that is tracked. -/
  prerequisites : ∀ paths, LinkFileList.prerequisites table paths =
    (paths.filter (LinkFileList.isTracked table)).eraseDups.map makeTarget
  products : ∀ path other,
    makeTarget other ∈ (table.addLinkedProduct (makeTarget path)).linkedProducts ↔
      makeTarget other ∈ table.linkedProducts ∨ other = path ∧ isObjectFile path = false
  /-- An object is tracked, be it told by its path or by its target. -/
  tracked : ∀ path, LinkFileList.isTracked table path =
    (table.has (makeTarget path) || isObjectFile (makeTarget path))
  /-- The output of a link becomes a product unless its target is that of an object. -/
  linked : ∀ site output prerequisites,
    (Contribution.ofLink table site output prerequisites).table =
      (table.register (Rule.ofLink site output prerequisites)).addLinkedProduct (makeTarget output)

theorem RuleTable.tellsPathsApart (table : RuleTable) : table.TellsPathsApart where
  rules rule path other := by
    intro written
    rw [get?_register]
    simp only [written, makeTarget_injective.eq_iff]
  prerequisites paths := map_eraseDupsBy makeTarget_beq_makeTarget _
  products path other := by
    rw [mem_linkedProducts_addLinkedProduct, makeTarget_injective.eq_iff, isObjectFile_makeTarget]
  tracked path := by rw [LinkFileList.isTracked, isObjectFile_makeTarget]
  linked site output prerequisites := Contribution.table_ofLink table site output prerequisites

/-- A target is read back as the path that it was written from, so no two paths share one, and what
is read of a target is written as that target if and only if it was written at all. A target ends
like an object just if its path does. So every table of targets tells paths apart. -/
theorem makeTarget_names_paths :
    (∀ path, ofMakeTarget (makeTarget path) = path) ∧
      (∀ first second, makeTarget first = makeTarget second ↔ first = second) ∧
      (∀ target, makeTarget (ofMakeTarget target) = target ↔ ∃ path, makeTarget path = target) ∧
      (∀ path, isObjectFile (makeTarget path) = isObjectFile path) ∧
      ∀ table : RuleTable, table.TellsPathsApart := by
  refine ⟨ofMakeTarget_makeTarget, fun _ _ => makeTarget_injective.eq_iff, fun target => ?_,
    isObjectFile_makeTarget, RuleTable.tellsPathsApart⟩
  constructor
  · intro same
    exact ⟨ofMakeTarget target, same⟩
  · rintro ⟨path, rfl⟩
    rw [ofMakeTarget_makeTarget]

-- the backslash of the path is not taken for that of the escaper
example : ofMakeTarget "\\\\& $$.o".toList = "\\& $.o".toList := by decide

end MakeRules
