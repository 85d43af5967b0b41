import MakeRules.Log.DirectoryChange
import MakeRules.Proofs.Step.Markers
import MakeRules.Proofs.Text.Spaced
import MakeRules.Proofs.Words

/-! What changes to a directory, and to which one.

The operand is what stands behind `cd` and all white space. A directory change to a guarded path
changes to that path: with a quote in it the path is read as a word, and any other by undoing its
backslashes, and both ways lead to the same path.
-/

set_option autoImplicit false

namespace MakeRules

namespace DirectoryChange

/-- What can stand as an operand behind white space. White space itself is separation, but for the
last character where there is nothing else. -/
structure IsOperand (operand : Text) : Prop where
  some_text : operand ≠ []
  oneLine : ∀ c ∈ operand, isLineEnd c = false
  first : ∀ c ∈ operand.head?, isSpace c = true → operand = [c]

/-- The text is `cd`, white space and the operand, perhaps with a timing command in front. -/
def ChangesTo (text operand : Text) : Prop :=
  IsOperand operand ∧ ∃ time gap : Text,
    (time = [] ∨ ∃ gap : Text, gap.isGap = true ∧ time = "/usr/bin/time".toList ++ gap) ∧
    gap.isGap = true ∧ text = time ++ ("cd".toList ++ (gap ++ operand))

theorem isOperand_of_operandBehind? {c : Char} {rest operand : Text} (space : isSpace c = true)
    (found : operandBehind? (c :: rest) = some operand) :
    IsOperand operand ∧ ∃ gap : Text, gap.isGap = true ∧ c :: rest = gap ++ operand := by
  obtain ⟨gap, isGap, shape, bare⟩ := Text.exists_isGap_append_trimStart space rest
  unfold operandBehind? at found
  split at found
  · -- white space to the end, of which the last character is the operand
    next last before front blank reversed =>
    split at found
    · cases found
    · next inside =>
      obtain rfl := Option.some.inj found
      rw [blank, List.append_nil] at shape
      have parted : c :: rest = (before :: front).reverse ++ [last] := by
        rw [← List.reverse_cons, ← reversed, List.reverse_reverse]
      have spaces : ∀ d ∈ (before :: front).reverse, isSpace d = true := by
        rw [← shape, parted] at isGap
        exact (List.forall_mem_append.1 (Text.isGap_iff.1 isGap).2).1
      have alone : ∀ d ∈ [last].head?, isSpace d = true → [last] = [d] :=
        fun d first _ => congrArg ([·]) (Option.some.inj first)
      exact ⟨⟨List.cons_ne_nil last [], by simpa using inside, alone⟩, _,
        Text.isGap_iff.2 ⟨by simp, spaces⟩, parted⟩
  · cases found
  · next some_text _ =>
    split at found
    · cases found
    · next inside =>
      obtain rfl := Option.some.inj found
      refine ⟨⟨some_text, by simpa using inside, fun d first blank => ?_⟩, gap, isGap, shape⟩
      cases (bare d first).symm.trans blank

theorem operandBehind?_append {gap operand : Text} (isGap : gap.isGap = true)
    (captured : IsOperand operand) : operandBehind? (gap ++ operand) = some operand := by
  obtain ⟨some_text, oneLine, first⟩ := captured
  obtain ⟨some_gap, spaces⟩ := Text.isGap_iff.1 isGap
  obtain ⟨c, rest, rfl⟩ := List.exists_cons_of_ne_nil some_text
  -- the separation ends before the operand, but where that is white space itself
  cases blank : isSpace c with
  | true =>
    obtain rfl : rest = [] := (List.cons.inj (first c rfl blank)).2
    have none : (gap ++ [c] ++ []).trimStart = [] :=
      Text.trimStart_append (gap ++ [c])
        (List.forall_mem_append.2 ⟨spaces, List.forall_mem_singleton.2 blank⟩)
        (by intro d first; cases first)
    rw [List.append_nil] at none
    obtain ⟨before, front, reversed⟩ :=
      List.exists_cons_of_ne_nil (mt List.reverse_eq_nil_iff.1 some_gap)
    have reversed : (gap ++ [c]).reverse = c :: before :: front := by
      rw [List.reverse_append, reversed]
      rfl
    simp only [operandBehind?, none, reversed, oneLine c List.mem_cons_self]
    rfl
  | false =>
    have start : (gap ++ c :: rest).trimStart = c :: rest :=
      Text.trimStart_append gap spaces fun d first => Option.some.inj first ▸ blank
    have noEnd : (c :: rest).any isLineEnd = false := by simpa using oneLine
    simp only [operandBehind?, start, noEnd]
    rfl

theorem operand?_eq_some_iff {text operand : Text} :
    operand? text = some operand ↔ ChangesTo text operand := by
  constructor
  · intro found
    obtain ⟨behind, entered, found⟩ := Option.bind_eq_some_iff.1 found
    obtain ⟨command, c, rest, rfl, space⟩ := Text.behindWord?_eq_some.1 entered
    obtain ⟨captured, gap, isGap, shape⟩ := isOperand_of_operandBehind? space found
    rw [shape] at command
    cases timed : text.behindWord? "/usr/bin/time".toList with
    | none =>
      rw [timed] at command
      exact ⟨captured, [], gap, .inl rfl, isGap, command⟩
    | some behind =>
      rw [timed, Option.map_some, Option.getD_some] at command
      obtain ⟨rfl, d, later, rfl, blank⟩ := Text.behindWord?_eq_some.1 timed
      obtain ⟨before, isBefore, parted, -⟩ := Text.exists_isGap_append_trimStart blank later
      refine ⟨captured, _, gap, .inr ⟨before, isBefore, rfl⟩, isGap, ?_⟩
      rw [List.append_assoc, ← command, ← parted]
  · rintro ⟨captured, time, gap, timed, isGap, rfl⟩
    have entered := @Text.behindWord?_gap_append "cd".toList gap operand isGap
    rcases timed with rfl | ⟨before, isBefore, rfl⟩
    · have untimed :
          Text.behindWord? ("cd".toList ++ (gap ++ operand)) "/usr/bin/time".toList = none :=
        rfl
      rw [List.nil_append, operand?, untimed, Option.map_none, Option.getD_none, entered,
        Option.bind_some, operandBehind?_append isGap captured]
    · have spaces := (Text.isGap_iff.1 isBefore).2
      have start : (before ++ ("cd".toList ++ (gap ++ operand))).trimStart =
          "cd".toList ++ (gap ++ operand) :=
        Text.trimStart_append before spaces fun c first => Option.some.inj first ▸ rfl
      rw [List.append_assoc, operand?, Text.behindWord?_gap_append isBefore, Option.map_some,
        Option.getD_some, start, entered, Option.bind_some, operandBehind?_append isGap captured]

theorem operand?_cd {operand : Text} (some_text : operand ≠ [])
    (first : ∀ c ∈ operand.head?, isSpace c = false)
    (oneLine : ∀ c ∈ operand, isLineEnd c = false) :
    operand? ("cd ".toList ++ operand) = some operand := by
  have captured : IsOperand operand := ⟨some_text, oneLine, fun c starts space => by
    cases (first c starts).symm.trans space⟩
  exact operand?_eq_some_iff.2 ⟨captured, [], [' '], .inl rfl, by decide, rfl⟩

theorem ofOperand_guarded {path : Text} (some_text : path ≠ [])
    (oneLine : ∀ c ∈ path, isLineEnd c = false) : ofOperand (Escape.guarded path) = path := by
  unfold ofOperand
  split
  · obtain ⟨word, words, value⟩ := List.map_eq_singleton_iff.1 (wordValues_guarded some_text)
    simp [words, value]
  · exact Escape.ofShell_guarded oneLine

theorem ofRecord?_guarded {record : Record} {path : Text} (some_text : path ≠ [])
    (oneLine : ∀ c ∈ path, isLineEnd c = false)
    (shown : record.text = "cd ".toList ++ Escape.guarded path) :
    ofRecord? record = some { record, directory := path } := by
  have operand : operand? record.text = some (Escape.guarded path) := by
    rw [shown]
    apply operand?_cd (Escape.guarded_ne_nil some_text)
    · intro c first
      exact Escape.not_isSpace_of_head?_guarded first
    · intro c member
      rcases Escape.mem_guarded member with rfl | inside
      · rfl
      · exact oneLine c inside
  simp [ofRecord?, operand, ofOperand_guarded some_text oneLine]

theorem subset_of_operand? {text operand : Text} (found : operand? text = some operand) :
    operand ⊆ text := by
  obtain ⟨_, time, gap, _, _, rfl⟩ := operand?_eq_some_iff.1 found
  intro c member
  simp [member]

theorem ofOperand_subset (operand : Text) : ofOperand operand ⊆ operand := by
  unfold ofOperand
  split
  · split
    · next word words =>
      apply subset_of_mem_wordValues
      rw [wordValues, words]
      exact List.mem_cons_self
    · exact List.Subset.refl operand
  · exact Escape.ofShell_subset operand

/-- The directory has no characters but those of the record. -/
theorem directory_subset_of_ofRecord? {record : Record} {change : DirectoryChange}
    (reads : ofRecord? record = some change) : change.directory ⊆ record.text := by
  obtain ⟨operand, found, rfl⟩ := Option.map_eq_some_iff.1 reads
  exact List.Subset.trans (ofOperand_subset operand) (subset_of_operand? found)

end DirectoryChange

end MakeRules
