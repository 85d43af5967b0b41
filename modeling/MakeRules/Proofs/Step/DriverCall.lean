import MakeRules.Proofs.Step.Markers
import MakeRules.Proofs.Text.Spaced

/-! The words of a driver call.

The call has the words of the record in their order, without the wrapper and without the flag for
the build system. White space goes with the word behind it, so what stays is spaced as before. A
word that only begins like the flag stays.
-/

set_option autoImplicit false

namespace MakeRules

namespace SpacedLine

/-- The line without a word wherever the word stands behind another. -/
def without (word : Text) (line : SpacedLine) : SpacedLine :=
  { line with later := line.later.filter (·.word ≠ word) }

/-- The line from the third word on, if the words before it are a wrapper and `--`. -/
def unwrapped (wrapper : Text) (line : SpacedLine) : SpacedLine :=
  match line.later with
  | dashes :: third :: later =>
    if line.first = wrapper ∧ dashes.word = "--".toList then
      ⟨third.word, later, third.word_isSolid⟩
    else line
  | _ => line

theorem unwrapped_eq_self {wrapper : Text} {line : SpacedLine}
    (bare : ¬(line.first = wrapper ∧ ∃ dashes third later, line.later = dashes :: third :: later ∧
      dashes.word = "--".toList)) : line.unwrapped wrapper = line := by
  unfold unwrapped
  split
  next dashes third later shape =>
    exact if_neg fun both => bare ⟨both.1, dashes, third, later, shape, both.2⟩
  next => rfl

section

variable {word other : Text} {words : List SpacedWord}

theorem behindWord?_append_spaced_eq_some {rest : Text} (solid : word.isSolid = true)
    (solid' : other.isSolid = true) :
    (word ++ spaced words).behindWord? other = some rest ↔
      word = other ∧ words ≠ [] ∧ rest = spaced words := by
  constructor
  · intro found
    obtain ⟨same, c, behind, rfl, space⟩ := Text.behindWord?_eq_some.1 found
    have ends : ∀ d ∈ (c :: behind).head?, isSpace d = true :=
      fun d first => Option.some.inj first ▸ space
    obtain ⟨rfl, shape⟩ := Text.append_inj_of_isSolid solid (isSpace_of_head?_spaced words) solid'
      ends same
    refine ⟨rfl, ?_, shape.symm⟩
    rintro rfl
    cases shape
  · rintro ⟨rfl, some_word, rfl⟩
    obtain ⟨next, later, rfl⟩ := List.exists_cons_of_ne_nil some_word
    rw [spaced_cons]
    exact Text.behindWord?_gap_append next.gap_isGap

theorem startsWithWord_append_spaced (solid : word.isSolid = true) (solid' : other.isSolid = true) :
    Text.startsWithWord (word ++ spaced words) other = true ↔ word = other := by
  rw [Text.startsWithWord, Bool.or_eq_true, beq_iff_eq]
  constructor
  · rintro (same | found)
    · have same : word ++ spaced words = other ++ spaced [] := by
        rw [same, spaced_nil, List.append_nil]
      exact (Text.append_inj_of_isSolid solid (isSpace_of_head?_spaced words) solid'
        (isSpace_of_head?_spaced []) same).1
    · obtain ⟨rest, found⟩ := Option.isSome_iff_exists.1 found
      exact ((behindWord?_append_spaced_eq_some solid solid').1 found).1
  · rintro rfl
    cases words with
    | nil => exact .inl (List.append_nil word)
    | cons next words =>
      have found := (behindWord?_append_spaced_eq_some solid solid).2
        ⟨rfl, List.cons_ne_nil next words, rfl⟩
      exact .inr (Option.isSome_of_eq_some found)

end

end SpacedLine

namespace SwiftInvocation

open SpacedLine

/-- The wrapper goes only with `--` and a third word behind it: without that word the record ends
in `--`, and no white space is behind it. -/
theorem dropWrapper_text {wrapper : Text} (solid : wrapper.isSolid = true) (line : SpacedLine) :
    dropWrapper wrapper line.text = (line.unwrapped wrapper).text := by
  obtain ⟨first, later, first_isSolid⟩ := line
  have entered (rest : Text) := @behindWord?_append_spaced_eq_some first wrapper later rest
    first_isSolid solid
  rw [dropWrapper, text]
  cases wrapped : Text.behindWord? (first ++ spaced later) wrapper with
  | none =>
    rw [unwrapped_eq_self]
    · rfl
    · rintro ⟨same, dashes, third, later, rfl, -⟩
      cases wrapped.symm.trans ((entered _).2 ⟨same, List.cons_ne_nil dashes (third :: later), rfl⟩)
  | some arguments =>
    obtain ⟨rfl, some_word, rfl⟩ := (entered arguments).1 wrapped
    obtain ⟨dashes, later, rfl⟩ := List.exists_cons_of_ne_nil some_word
    have opened (rest : Text) := @behindWord?_append_spaced_eq_some dashes.word "--".toList later
      rest dashes.word_isSolid (by decide)
    rw [Option.bind_eq_bind, Option.bind_some, trimStart_spaced_cons]
    cases parted : Text.behindWord? (dashes.word ++ spaced later) "--".toList with
    | none =>
      rw [unwrapped_eq_self]
      · rfl
      · rintro ⟨-, dashes, third, later, ⟨⟩, same⟩
        cases parted.symm.trans ((opened _).2 ⟨same, List.cons_ne_nil third later, rfl⟩)
    | some rest =>
      obtain ⟨same, some_word, rfl⟩ := (opened rest).1 parted
      obtain ⟨third, later, rfl⟩ := List.exists_cons_of_ne_nil some_word
      have behind : unwrapped first ⟨first, dashes :: third :: later, first_isSolid⟩ =
          ⟨third.word, later, third.word_isSolid⟩ :=
        if_pos ⟨rfl, same⟩
      rw [behind]
      exact trimStart_spaced_cons third later

section

variable (word : Text)

theorem dropWordFrom_bare_append {front : Text} (bare : ∀ c ∈ front, isSpace c = false)
    (rest : Text) :
    dropWordFrom word 0 [] (front ++ rest) = front ++ dropWordFrom word 0 [] rest := by
  induction front with
  | nil => rfl
  | cons c front ih =>
    obtain ⟨first, later⟩ := List.forall_mem_cons.1 bare
    rw [List.cons_append, dropWordFrom, first, ih later]
    rfl

theorem dropWordFrom_space_append {gap : Text} (space : ∀ c ∈ gap, isSpace c = true)
    (before rest : Text) :
    dropWordFrom word 0 before (gap ++ rest) = dropWordFrom word 0 (before ++ gap) rest := by
  induction gap generalizing before with
  | nil => rw [List.append_nil, List.nil_append]
  | cons c gap ih =>
    obtain ⟨first, later⟩ := List.forall_mem_cons.1 space
    rw [List.cons_append, dropWordFrom, first, if_pos rfl, ih later, List.append_assoc]
    rfl

theorem dropWordFrom_length_append (taken rest : Text) :
    dropWordFrom word taken.length [] (taken ++ rest) = dropWordFrom word 0 [] rest := by
  induction taken with
  | nil => rfl
  | cons c taken ih => exact ih

theorem dropWordFrom_cons_of_bare {c : Char} (bare : isSpace c = false) (gap rest : Text) :
    dropWordFrom word 0 gap (c :: rest) =
      if !gap.isEmpty && Text.startsWithWord (c :: rest) word then
        dropWordFrom word (word.length - 1) [] rest
      else gap ++ c :: dropWordFrom word 0 [] rest := by
  rw [dropWordFrom, bare]
  rfl

/-- White space is put back with the word behind it, or goes with it. -/
theorem dropWordFrom_spaced_cons (solid : word.isSolid = true) (next : SpacedWord)
    (words : List SpacedWord) :
    dropWordFrom word 0 [] (spaced (next :: words)) =
      if next.word = word then dropWordFrom word 0 [] (spaced words)
      else next.gap ++ (next.word ++ dropWordFrom word 0 [] (spaced words)) := by
  obtain ⟨gap, next, isGap, isSolid⟩ := next
  obtain ⟨some_gap, spaces⟩ := Text.isGap_iff.1 isGap
  obtain ⟨some_text, bare⟩ := Text.isSolid_iff.1 isSolid
  obtain ⟨c, tail, rfl⟩ := List.exists_cons_of_ne_nil some_text
  obtain ⟨first, bare⟩ := List.forall_mem_cons.1 bare
  have starts := @startsWithWord_append_spaced (c :: tail) word words isSolid solid
  have parted : (!gap.isEmpty) = true := by simpa using some_gap
  rw [spaced_cons, dropWordFrom_space_append word spaces, List.nil_append]
  rw [List.cons_append] at starts ⊢
  rw [dropWordFrom_cons_of_bare word first, parted, Bool.true_and]
  by_cases same : c :: tail = word
  · have taken : word.length - 1 = tail.length := by
      rw [← same, List.length_cons, Nat.add_sub_cancel]
    rw [if_pos (starts.2 same), if_pos same, taken, dropWordFrom_length_append]
  · rw [if_neg (mt starts.1 same), if_neg same, dropWordFrom_bare_append word bare,
      List.cons_append]

theorem dropWordFrom_spaced (solid : word.isSolid = true) (words : List SpacedWord) :
    dropWordFrom word 0 [] (spaced words) = spaced (words.filter (·.word ≠ word)) := by
  induction words with
  | nil => rfl
  | cons next words ih =>
    rw [dropWordFrom_spaced_cons word solid, ih]
    by_cases same : next.word = word
    · simp [same]
    · simp [same, spaced_cons]

theorem dropWord_text {word : Text} (solid : word.isSolid = true) (line : SpacedLine) :
    dropWord word line.text = (line.without word).text := by
  rw [dropWord, text, dropWordFrom_bare_append word (Text.isSolid_iff.1 line.first_isSolid).2,
    dropWordFrom_spaced word solid]
  rfl

end

/-- A driver line is words and white space in one way only, and so is its call: the words from the
third on behind the wrapper, else all of them, without the flag wherever it stands behind another
word, each with the white space that was before it. -/
theorem words_of_driver_line {text : Text} (trimmed : text.trim = text) (some_text : text ≠ []) :
    ∃ line : SpacedLine, (∀ other : SpacedLine, other.text = text ↔ other = line) ∧
      ∀ call : SpacedLine, call.text = ofDriverLine text ↔
        call = (line.unwrapped "builtin-SwiftDriver".toList).without parseableOutput := by
  obtain ⟨line, rfl⟩ := exists_text_eq trimmed some_text
  refine ⟨line, fun other => text_injective.eq_iff, fun call => ?_⟩
  rw [ofDriverLine, dropWrapper_text (by decide), dropWord_text (by decide)]
  exact text_injective.eq_iff

theorem words_of_driver_line_of_repeated_flag :
    let flag : Text := "-parseable-output".toList
    let line : SpacedLine := {
      first := "builtin-SwiftDriver".toList
      later := [
        { gap := " ".toList, word := "--".toList }, { gap := "\t ".toList, word := flag },
        { gap := " ".toList, word := flag }, { gap := "  ".toList, word := "-c".toList },
        { gap := " ".toList, word := flag }, { gap := "\t\t".toList, word := flag },
        { gap := "\u00a0".toList, word := "-parseable-output2".toList },
        { gap := " ".toList, word := flag }] }
    let call : SpacedLine := {
      first := flag
      later := [
        { gap := "  ".toList, word := "-c".toList },
        { gap := "\u00a0".toList, word := "-parseable-output2".toList }] }
    line.text.trim = line.text ∧ line.text ≠ [] ∧ ofDriverLine line.text = call.text := by
  intro flag line call
  have trimmed : line.text.trim = line.text := by decide
  have some_text : line.text ≠ [] := by decide
  obtain ⟨seen, only, calls⟩ := words_of_driver_line trimmed some_text
  have same : line = seen := (only line).1 rfl
  have kept : call = (seen.unwrapped "builtin-SwiftDriver".toList).without parseableOutput := by
    rw [← same]
    decide
  exact ⟨trimmed, some_text, ((calls call).2 kept).symm⟩

end SwiftInvocation

end MakeRules
