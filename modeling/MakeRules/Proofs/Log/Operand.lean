import MakeRules.Proofs.Escape.Rereading
import MakeRules.Proofs.Log.DirectoryChange
import MakeRules.Proofs.Words.Places

/-! The operand of a directory change.

An operand that is one word changes to what the word stands for. Only where there is a quote in it
are its words read. Else its backslashes are undone, and that leaves the same text: either way each
backslash guards the character behind it, and the last one, with nothing behind it, stays.
-/

set_option autoImplicit false

namespace MakeRules

/-- Where no quote is, and no line ends, a word stands for its form without the backslashes. -/
theorem Lexeme.value_read_of_unquoted {text : Text} (unquoted : ∀ c ∈ text, c ≠ '\'' ∧ c ≠ '"')
    (oneLine : ∀ c ∈ text, isLineEnd c = false) :
    (read .bare text).value = Escape.ofShell (read .bare text).written := by
  fun_induction Escape.ofShell text with
  | case1 => rfl
  | case2 c rest ends =>
    have inside := oneLine c (by simp)
    cases inside.symm.trans ends
  | case3 c rest inside ih =>
    obtain ⟨-, -, unquoted⟩ := by simpa only [List.forall_mem_cons] using unquoted
    obtain ⟨-, inside, oneLine⟩ := by simpa only [List.forall_mem_cons] using oneLine
    rw [read_bare_slash]
    simp only [behind, List.cons_append, List.nil_append, Escape.ofShell_slash inside,
      ih unquoted oneLine]
  | case4 c rest guards ih =>
    obtain ⟨⟨single, double⟩, unquoted⟩ := List.forall_mem_cons.1 unquoted
    obtain ⟨-, oneLine⟩ := List.forall_mem_cons.1 oneLine
    by_cases slash : c = '\\'
    · -- the last character, as a backslash before another is the case above
      cases rest with
      | nil => rw [slash]; rfl
      | cons d rest => exact absurd rfl (guards d rest slash)
    · cases stops : isWordBreak c with
      | true =>
        have ends : ∀ d ∈ (c :: rest).head?, isWordBreak d = true :=
          fun d first => Option.some.inj first ▸ stops
        rw [read_of_isWordBreak ends]
        rfl
      | false =>
        have plain : c ∉ special := by
          simp only [isWordBreak] at stops
          simp_all [special]
        rw [read_plain_cons plain]
        simp only [behind, List.cons_append, List.nil_append, Escape.ofShell_cons slash,
          ih unquoted oneLine]

namespace DirectoryChange

theorem eq_lexeme_of_whole {operand : Text} {word : Word} (single : splitWords operand = [word])
    (start : word.start = 0) (stop : word.stop = operand.length) : operand = word.lexeme := by
  have stands := single ▸ wordsAt_splitWords operand
  obtain ⟨front, behind, whole, starts, stops⟩ := stands.exists_text_eq List.mem_cons_self
  have length := congrArg List.length whole
  simp only [List.length_append] at length
  obtain rfl : front = [] := List.eq_nil_of_length_eq_zero (by omega)
  obtain rfl : behind = [] := List.eq_nil_of_length_eq_zero (by omega)
  rw [whole, List.nil_append, List.append_nil]

/-- An operand that is one word as a whole changes to what the word stands for. Where no quote is in
it, undoing its backslashes comes to the same. -/
theorem directory_of_one_word {record : Record} {operand : Text} {word : Word}
    (changes : ChangesTo record.text operand) (single : splitWords operand = [word])
    (start : word.start = 0) (stop : word.stop = operand.length) :
    ofRecord? record = some { record, directory := word.value } ∧
      ((∀ c ∈ operand, c ≠ '\'' ∧ c ≠ '"') → Escape.ofShell operand = word.value) := by
  have reads : Lexeme.read .bare operand = ⟨word.value, operand⟩ := by
    rw [eq_lexeme_of_whole single start stop]
    exact (single ▸ wordsAt_splitWords operand).read_lexeme List.mem_cons_self
  have undone (unquoted : ∀ c ∈ operand, c ≠ '\'' ∧ c ≠ '"') :
      Escape.ofShell operand = word.value := by
    have same := Lexeme.value_read_of_unquoted unquoted changes.1.oneLine
    rw [reads] at same
    exact same.symm
  have directory : ofOperand operand = word.value := by
    unfold ofOperand
    split
    · rw [single]
    · next bare => exact undone (by simpa using bare)
  refine ⟨?_, undone⟩
  rw [ofRecord?, operand?_eq_some_iff.2 changes, Option.map_some, directory]

theorem directory_of_one_word_of_backslashes :
    let operand : Text := "/a\\\\\\\\\\ b\\\\\\c\\".toList
    let record : Record := { text := "/usr/bin/time\tcd  ".toList ++ operand, line := .ofNat 1 }
    let word : Word := ⟨"/a\\\\ b\\c\\".toList, operand, 0, 14⟩
    ChangesTo record.text operand ∧ splitWords operand = [word] ∧
      word.stop = operand.length ∧
      ofRecord? record = some { record, directory := word.value } ∧
      Escape.ofShell operand = word.value := by
  intro operand record word
  have changes : ChangesTo record.text operand := operand?_eq_some_iff.1 (by decide)
  have single : splitWords operand = [word] := by decide
  have stop : word.stop = operand.length := by decide
  obtain ⟨reads, undone⟩ := directory_of_one_word changes single rfl stop
  exact ⟨changes, single, stop, reads, undone (by simp [operand])⟩

end DirectoryChange

end MakeRules
