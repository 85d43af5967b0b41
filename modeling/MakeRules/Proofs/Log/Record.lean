import MakeRules.Log.Record
import MakeRules.Proofs.Text.Lines
import Mathlib.Data.List.Nodup

/-! The records of a text are its lines, trimmed and with their numbers. So no two are the same,
and none goes over the end of a line.
-/

set_option autoImplicit false

namespace MakeRules

theorem Decimal.ofNat_injective : Function.Injective Decimal.ofNat := by
  intro left right same
  exact Int.ofNat.inj (congrArg Decimal.significand same)

/-- The record of a line that stands behind so many others. -/
def Record.ofLine (before : Nat) (line : Text) : Record where
  text := line.trim
  line := .ofNat (before + 1)

namespace Log

theorem getElem?_ofText (text : Text) (place : Nat) :
    (ofText text)[place]? = text.lines[place]?.map (.ofLine place) := by
  rw [ofText, ofLines, List.getElem?_map, List.getElem?_zipIdx, Option.map_map, Nat.zero_add,
    Nat.add_comm]
  rfl

theorem ofText_eq_mapIdx (text : Text) : ofText text = text.lines.mapIdx .ofLine := by
  apply List.ext_getElem?
  intro place
  rw [getElem?_ofText, List.getElem?_mapIdx]

theorem line_of_getElem?_ofText {text : Text} {place : Nat} {record : Record}
    (shown : (ofText text)[place]? = some record) : record.line = .ofNat (place + 1) := by
  rw [getElem?_ofText] at shown
  obtain ⟨line, _, rfl⟩ := Option.map_eq_some_iff.1 shown
  rfl

theorem map_line_ofLines (before : Nat) (lines : List Text) :
    (ofLines before lines).map (·.line) =
      (List.range' (before + 1) lines.length).map Decimal.ofNat := by
  induction lines generalizing before with
  | nil => rfl
  | cons line lines ih => simp [ih, List.range'_succ]

theorem nodup_ofText (text : Text) : (ofText text).Nodup := by
  apply List.Nodup.of_map (·.line)
  rw [ofText, map_line_ofLines]
  exact List.Nodup.map Decimal.ofNat_injective List.nodup_range'

/-- Some of a text's records, in order, have numbers of its lines that increase. -/
theorem exists_numbers_of_sublist {text : Text} {records : List Record}
    (part : records.Sublist (ofText text)) :
    ∃ numbers : List Nat, records.map (·.line) = numbers.map Decimal.ofNat ∧
      numbers.Pairwise (· < ·) ∧ ∀ number ∈ numbers, 1 ≤ number ∧ number ≤ text.lines.length := by
  have lines := part.map (·.line)
  rw [ofText, map_line_ofLines] at lines
  obtain ⟨numbers, among, same⟩ := List.sublist_map_iff.1 lines
  refine ⟨numbers, same, List.Pairwise.sublist among List.pairwise_lt_range', fun number member => ?_⟩
  have bounds := List.mem_range'_1.1 (among.subset member)
  omega

theorem lf_not_mem_of_mem_ofText {text : Text} {record : Record} (member : record ∈ ofText text) :
    '\n' ∉ record.text := by
  obtain ⟨⟨line, number⟩, among, rfl⟩ := List.mem_map.1 member
  have shown : line ∈ text.lines := List.fst_mem_of_mem_zipIdx among
  exact fun inside => Text.lf_not_mem_of_mem_lines shown (Text.mem_of_mem_trim inside)

end Log

end MakeRules
