import MakeRules.Proofs.Escape.Decoding
import MakeRules.Words

/-! The words of a line of guarded words are those words, whatever characters they have. -/

set_option autoImplicit false

namespace MakeRules

namespace Escape

theorem not_isSpace_of_isPlain {c : Char} (plain : isPlain c = true) : isSpace c = false := by
  have bounds {low high : Char} (within : low.val ≤ c.val ∧ c.val ≤ high.val) :
      low.toNat ≤ c.toNat ∧ c.toNat ≤ high.toNat := by
    rw [UInt32.le_iff_toNat_le, UInt32.le_iff_toNat_le] at within
    exact within
  have code : 45 ≤ c.toNat ∧ c.toNat ≤ 122 := by
    rw [isPlain, Bool.or_eq_true] at plain
    rcases plain with alphanumeric | punctuation
    · have kinds : ((c.isUpper || c.isLower) || c.isDigit) = true := alphanumeric
      rw [Bool.or_eq_true, Bool.or_eq_true] at kinds
      rcases kinds with (upper | lower) | digit
      · have range : 65 ≤ c.toNat ∧ c.toNat ≤ 90 := @bounds 'A' 'Z' (of_decide_eq_true upper)
        omega
      · have range : 97 ≤ c.toNat ∧ c.toNat ≤ 122 :=
          @bounds 'a' 'z' ((Bool.and_eq_true_iff.1 lower).imp of_decide_eq_true of_decide_eq_true)
        omega
      · have range : 48 ≤ c.toNat ∧ c.toNat ≤ 57 :=
          @bounds '0' '9' ((Bool.and_eq_true_iff.1 digit).imp of_decide_eq_true of_decide_eq_true)
        omega
    · simp only [List.mem_cons, List.not_mem_nil, or_false, decide_eq_true_eq] at punctuation
      rcases punctuation with rfl | rfl | rfl | rfl <;> decide
  rw [Bool.eq_false_iff]
  intro space
  simp only [isSpace, Bool.or_eq_true, Bool.and_eq_true, decide_eq_true_eq, beq_iff_eq] at space
  omega

theorem not_isWordBreak_of_not_isSpace {c : Char} (bare : isSpace c = false) :
    isWordBreak c = false := by
  rw [Bool.eq_false_iff]
  intro breaks
  simp only [isWordBreak, Bool.or_eq_true, beq_iff_eq] at breaks
  rcases breaks with rfl | rfl <;> cases bare

theorem not_isSpace_of_head?_guarded {c : Char} {path : Text} (first : c ∈ (guarded path).head?) :
    isSpace c = false := by
  rcases head?_guarded first with rfl | plain
  · rfl
  · exact not_isSpace_of_isPlain plain

end Escape

open Escape

namespace Lexeme

/-- The characters that mean more than themselves outside quotes. -/
def special : List Char := [' ', '\t', '\\', '\'', '"']

theorem not_isWordBreak_of_not_special {c : Char} (plain : c ∉ special) : isWordBreak c = false := by
  simp only [special, List.mem_cons, List.not_mem_nil, or_false, not_or] at plain
  simp [isWordBreak, plain]

theorem not_special_of_all {run : Text} (bare : run.all (decide <| · ∉ special) = true) :
    ∀ c ∈ run, c ∉ special :=
  fun c member => of_decide_eq_true (List.all_eq_true.1 bare c member)

/-- Any other character stands for itself. -/
theorem read_plain_cons {c : Char} (plain : c ∉ special) (rest : Text) :
    read .bare (c :: rest) = (read .bare rest).behind [c] [c] := by
  have bare := not_isWordBreak_of_not_special plain
  simp only [special, List.mem_cons, List.not_mem_nil, or_false, not_or] at plain
  obtain ⟨-, -, slash, single, double⟩ := plain
  simp [read, slash, bare]

theorem read_cons_of_isPlain {c : Char} (plain : isPlain c = true) (rest : Text) :
    read .bare (c :: rest) = (read .bare rest).behind [c] [c] := by
  refine read_plain_cons (fun bare => ?_) rest
  simp only [special, List.mem_cons, List.not_mem_nil, or_false] at bare
  rcases bare with rfl | rfl | rfl | rfl | rfl <;> cases plain

theorem read_bare_slash (c : Char) (rest : Text) :
    read .bare ('\\' :: c :: rest) = (read .bare rest).behind ['\\', c] [c] := by
  rw [read]

theorem read_single_cons {c : Char} (other : c ≠ '\'') (rest : Text) :
    read .single (c :: rest) = (read .single rest).behind [c] [c] := by
  simp [read]

theorem read_double_cons {c : Char} (quote : c ≠ '"') (slash : c ≠ '\\') (rest : Text) :
    read .double (c :: rest) = (read .double rest).behind [c] [c] := by
  simp [read, slash]

theorem read_double_slash {c : Char} (plain : c ≠ '"' ∧ c ≠ '\\' ∧ c ≠ '$') (rest : Text) :
    read .double ('\\' :: c :: rest) = (read .double (c :: rest)).behind ['\\'] ['\\'] := by
  simp [read, plain]

/-- Guarded characters belong to the word, and stand for themselves. -/
theorem read_guarded_append (path rest : Text) :
    read .bare (guarded path ++ rest) = (read .bare rest).behind (guarded path) path := by
  induction path with
  | nil => simp [behind]
  | cons c path ih =>
    by_cases plain : isPlain c = true
    · rw [guarded_cons, guardedChar, if_pos plain, List.singleton_append, List.cons_append,
        read_cons_of_isPlain plain, ih]
      rfl
    · rw [guarded_cons, guardedChar, if_neg plain, List.append_assoc, List.cons_append,
        List.singleton_append, read_bare_slash, ih]
      rfl

theorem read_of_isWordBreak {rest : Text} (ends : ∀ c ∈ rest.head?, isWordBreak c = true) :
    read .bare rest = ⟨[], []⟩ := by
  cases rest with
  | nil => rfl
  | cons c rest =>
    have breaks := ends c rfl
    simp only [isWordBreak, Bool.or_eq_true, beq_iff_eq] at breaks
    rcases breaks with rfl | rfl <;> simp [read, isWordBreak]

theorem read_guarded (path : Text) {rest : Text} (ends : ∀ c ∈ rest.head?, isWordBreak c = true) :
    read .bare (guarded path ++ rest) = ⟨path, guarded path⟩ := by
  rw [read_guarded_append, read_of_isWordBreak ends]
  simp [behind]

end Lexeme

namespace Lexeme

theorem value_subset_read (quote : Quote) (text : Text) : (read quote text).value ⊆ text := by
  fun_induction read quote text <;> grind [behind]

end Lexeme

theorem value_subset_of_mem_wordsFrom {taken offset : Nat} {text : Text} {word : Word}
    (member : word ∈ wordsFrom taken offset text) : word.value ⊆ text := by
  fun_induction wordsFrom taken offset text with
  | case1 => cases member
  | case2 _ _ c rest ih => exact List.subset_cons_of_subset c (ih member)
  | case3 _ c rest _ ih => exact List.subset_cons_of_subset c (ih member)
  | case4 _ c rest _ _ ih =>
    rcases List.mem_cons.1 member with rfl | later
    · exact Lexeme.value_subset_read .bare (c :: rest)
    · exact List.subset_cons_of_subset c (ih later)

/-- A word without its place in the text. -/
def Word.toLexeme (word : Word) : Lexeme :=
  ⟨word.value, word.lexeme⟩

/-- The words do not depend on where the text stands, but for their places. -/
theorem map_toLexeme_wordsFrom (taken first second : Nat) (text : Text) :
    (wordsFrom taken first text).map (·.toLexeme) =
      (wordsFrom taken second text).map (·.toLexeme) := by
  induction text generalizing taken first second with
  | nil => cases taken <;> rfl
  | cons c rest ih =>
    cases taken with
    | succ taken => exact ih ..
    | zero =>
      simp only [wordsFrom]
      split
      · exact ih ..
      · simp only [List.map_cons]
        rw [ih]
        rfl

/-- The words of a text without their places. -/
def lexemes (text : Text) : List Lexeme :=
  (splitWords text).map (·.toLexeme)

@[simp] theorem lexemes_nil : lexemes [] = [] := rfl

theorem lexemes_cons_of_isWordBreak {c : Char} (breaks : isWordBreak c = true) (rest : Text) :
    lexemes (c :: rest) = lexemes rest := by
  rw [lexemes, splitWords, wordsFrom, if_pos breaks]
  exact map_toLexeme_wordsFrom ..

/-- What is read at the front is the first word, and the others are those of the rest. -/
theorem wordsFrom_append {value written rest : Text} (offset : Nat) (some_text : written ≠ [])
    (starts : ∀ c ∈ written.head?, isWordBreak c = false)
    (reads : Lexeme.read .bare (written ++ rest) = ⟨value, written⟩) :
    wordsFrom 0 offset (written ++ rest) =
      ⟨value, written, offset, offset + written.length⟩ ::
        wordsFrom 0 (offset + written.length) rest := by
  obtain ⟨c, behind, rfl⟩ := List.exists_cons_of_ne_nil some_text
  have bare := starts c rfl
  rw [List.cons_append] at reads
  rw [List.cons_append, wordsFrom]
  simp only [bare, reads, Bool.false_eq_true, if_false]
  rw [wordsFrom_eq_drop]
  simp [Nat.add_assoc, Nat.add_comm 1]

theorem lexemes_append {value written rest : Text} (some_text : written ≠ [])
    (starts : ∀ c ∈ written.head?, isWordBreak c = false)
    (reads : Lexeme.read .bare (written ++ rest) = ⟨value, written⟩) :
    lexemes (written ++ rest) = ⟨value, written⟩ :: lexemes rest := by
  rw [lexemes, splitWords, wordsFrom_append 0 some_text starts reads, List.map_cons,
    map_toLexeme_wordsFrom]
  rfl

/-- What the words of a text stand for. -/
def wordValues (text : Text) : List Text :=
  (splitWords text).map (·.value)

/-- A word stands for no characters but those of the text. -/
theorem subset_of_mem_wordValues {text value : Text} (member : value ∈ wordValues text) :
    value ⊆ text := by
  obtain ⟨word, among, rfl⟩ := List.mem_map.1 member
  exact value_subset_of_mem_wordsFrom among

theorem mem_of_mem_valuesBehind {option : Text} {guard before : Option Text} {words : List Text}
    {value : Text} (member : value ∈ valuesBehind option guard before words) : value ∈ words := by
  fun_induction valuesBehind option guard before words <;> grind

section

variable {option word value : Text} (before : Option Text) (words : List Text)

theorem valuesBehind_cons_of_ne (other : word ≠ option) :
    valuesBehind option none before (word :: words) =
      valuesBehind option none (some word) words := by
  cases words with
  | nil => rfl
  | cons next words => simp [valuesBehind, other]

/-- The value behind an option is not taken for an option itself, unless it is that one again. -/
theorem valuesBehind_option_cons (other : value ≠ option) :
    valuesBehind option none before (option :: value :: words) =
      value :: valuesBehind option none (some value) words := by
  rw [← valuesBehind_cons_of_ne (some option) words other]
  simp [valuesBehind]

end

theorem subset_of_mem_optionValues {text option value : Text} {guard : Option Text}
    (member : value ∈ optionValues (splitWords text) option guard) : value ⊆ text :=
  subset_of_mem_wordValues (mem_of_mem_valuesBehind member)

theorem map_value_lexemes (text : Text) : (lexemes text).map (·.value) = wordValues text := by
  rw [lexemes, List.map_map]
  rfl

@[simp] theorem wordValues_nil : wordValues [] = [] := rfl

theorem wordValues_cons_of_isWordBreak {c : Char} (breaks : isWordBreak c = true) (rest : Text) :
    wordValues (c :: rest) = wordValues rest := by
  rw [← map_value_lexemes, lexemes_cons_of_isWordBreak breaks, map_value_lexemes]

theorem wordValues_append {value written rest : Text} (some_text : written ≠ [])
    (starts : ∀ c ∈ written.head?, isWordBreak c = false)
    (reads : Lexeme.read .bare (written ++ rest) = ⟨value, written⟩) :
    wordValues (written ++ rest) = value :: wordValues rest := by
  rw [← map_value_lexemes, lexemes_append some_text starts reads, List.map_cons,
    map_value_lexemes]

theorem wordValues_guarded_append {path rest : Text} (some_text : path ≠ [])
    (ends : ∀ c ∈ rest.head?, isWordBreak c = true) :
    wordValues (guarded path ++ rest) = path :: wordValues rest := by
  apply wordValues_append (guarded_ne_nil some_text)
  · intro c first
    exact not_isWordBreak_of_not_isSpace (not_isSpace_of_head?_guarded first)
  · exact Lexeme.read_guarded path ends

theorem wordValues_guarded {path : Text} (some_text : path ≠ []) :
    wordValues (guarded path) = [path] := by
  have alone := @wordValues_guarded_append path [] some_text (by simp)
  rwa [List.append_nil] at alone

/-- The words of guarded words with spaces between them are what was guarded. -/
theorem wordValues_intercalate_guarded (words : List Text) (some_text : ∀ word ∈ words, word ≠ []) :
    wordValues ([' '].intercalate (words.map guarded)) = words := by
  induction words with
  | nil => rfl
  | cons word words ih =>
    have first := some_text word List.mem_cons_self
    have later := ih fun other member => some_text other (List.mem_cons_of_mem _ member)
    cases words with
    | nil => simpa using wordValues_guarded first
    | cons next words =>
      have shape : [' '].intercalate ((word :: next :: words).map guarded) =
          guarded word ++ ' ' :: [' '].intercalate ((next :: words).map guarded) := by
        simp [List.intercalate]
      rw [shape, wordValues_guarded_append first (by simp [isWordBreak]),
        wordValues_cons_of_isWordBreak rfl, later]

end MakeRules
