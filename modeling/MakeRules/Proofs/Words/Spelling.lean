import MakeRules.Proofs.Words

/-! Words in all the ways in which they can be written.

A word is written part by part: plain characters as they are, any character behind a backslash,
and any text in quotes. However the words of a line are written, and whatever blanks stand around
them, they are read as they were meant, each with the form in which it was written.
-/

set_option autoImplicit false

namespace MakeRules

/-- One way to write a part of a word. -/
inductive Segment where
  | plain (run : Text) (some_char : run ≠ []) (bare : ∀ c ∈ run, c ∉ Lexeme.special)
  | guarded (c : Char)
  | single (body : Text) (unclosed : '\'' ∉ body)
  | double (body : Text)

namespace Segment

/-- The characters that a backslash guards within double quotes. -/
def doubleSpecial : List Char := ['"', '\\', '$']

def doubleChar (c : Char) : Text :=
  if c ∈ doubleSpecial then ['\\', c] else [c]

def written : Segment → Text
  | plain run _ _ => run
  | guarded c => ['\\', c]
  | single body _ => '\'' :: (body ++ ['\''])
  | double body => '"' :: (body.flatMap doubleChar ++ ['"'])

def value : Segment → Text
  | plain run _ _ => run
  | guarded c => [c]
  | single body _ => body
  | double body => body

theorem exists_written_eq_cons (segment : Segment) :
    ∃ c rest, segment.written = c :: rest ∧ isWordBreak c = false := by
  cases segment with
  | plain run some_char bare =>
    obtain ⟨c, rest, rfl⟩ := List.exists_cons_of_ne_nil some_char
    exact ⟨c, rest, rfl, Lexeme.not_isWordBreak_of_not_special (bare c List.mem_cons_self)⟩
  | guarded c => exact ⟨'\\', [c], rfl, rfl⟩
  | single body _ => exact ⟨'\'', body ++ ['\''], rfl, rfl⟩
  | double body => exact ⟨'"', body.flatMap doubleChar ++ ['"'], rfl, rfl⟩

end Segment

namespace Lexeme

@[simp] theorem behind_nil (lexeme : Lexeme) : lexeme.behind [] [] = lexeme := rfl

theorem behind_behind (lexeme : Lexeme) (written value writtenFront valueFront : Text) :
    (lexeme.behind written value).behind writtenFront valueFront =
      lexeme.behind (writtenFront ++ written) (valueFront ++ value) := by
  simp [behind]

theorem read_plain_append {run : Text} (bare : ∀ c ∈ run, c ∉ special) (rest : Text) :
    read .bare (run ++ rest) = (read .bare rest).behind run run := by
  induction run with
  | nil => rfl
  | cons c run ih =>
    rw [List.cons_append, read_plain_cons (bare c List.mem_cons_self),
      ih fun d member => bare d (List.mem_cons_of_mem _ member), behind_behind]
    rfl

theorem read_single_append {body : Text} (unclosed : '\'' ∉ body) (rest : Text) :
    read .single (body ++ '\'' :: rest) = (read .bare rest).behind (body ++ ['\'']) body := by
  induction body with
  | nil => simp [read]
  | cons c body ih =>
    obtain ⟨different, unclosed⟩ := not_or.1 fun found => unclosed (List.mem_cons.2 found)
    rw [List.cons_append, read_single_cons (Ne.symm different), ih unclosed, behind_behind]
    rfl

open Segment in
theorem read_doubleChar_append (c : Char) (rest : Text) :
    read .double (doubleChar c ++ rest) = (read .double rest).behind (doubleChar c) [c] := by
  by_cases special : c ∈ doubleSpecial
  · rw [doubleChar, if_pos special]
    simp only [doubleSpecial, List.mem_cons, List.not_mem_nil, or_false] at special
    obtain rfl | rfl | rfl := special <;> rw [List.cons_append, List.singleton_append, read]
  · rw [doubleChar, if_neg special]
    simp only [doubleSpecial, List.mem_cons, List.not_mem_nil, or_false, not_or] at special
    exact read_double_cons special.1 special.2.1 rest

open Segment in
theorem read_double_append (body rest : Text) :
    read .double (body.flatMap doubleChar ++ '"' :: rest) =
      (read .bare rest).behind (body.flatMap doubleChar ++ ['"']) body := by
  induction body with
  | nil => simp [read]
  | cons c body ih =>
    rw [List.flatMap_cons, List.append_assoc, read_doubleChar_append, ih, behind_behind,
      List.append_assoc]
    rfl

/-- A segment stands for its value, whatever stands behind it. -/
theorem read_segment_append (segment : Segment) (rest : Text) :
    read .bare (segment.written ++ rest) =
      (read .bare rest).behind segment.written segment.value := by
  cases segment with
  | plain run _ bare => exact read_plain_append bare rest
  | guarded c => exact read_bare_slash c rest
  | single body unclosed =>
    rw [Segment.written, List.cons_append, List.append_assoc, List.singleton_append, read,
      read_single_append unclosed, behind_behind]
    rfl
  | double body =>
    rw [Segment.written, List.cons_append, List.append_assoc, List.singleton_append, read,
      read_double_append, behind_behind]
    rfl

end Lexeme

/-- A way to write a word: one segment or more. -/
structure Spelling where
  segments : List Segment
  some_segment : segments ≠ []

namespace Spelling

def written (spelling : Spelling) : Text :=
  spelling.segments.flatMap Segment.written

def value (spelling : Spelling) : Text :=
  spelling.segments.flatMap Segment.value

theorem exists_written_eq_cons (spelling : Spelling) :
    ∃ c rest, spelling.written = c :: rest ∧ isWordBreak c = false := by
  obtain ⟨segment, segments, shape⟩ := List.exists_cons_of_ne_nil spelling.some_segment
  obtain ⟨c, rest, first, bare⟩ := segment.exists_written_eq_cons
  refine ⟨c, rest ++ segments.flatMap Segment.written, ?_, bare⟩
  rw [written, shape, List.flatMap_cons, first, List.cons_append]

/-- The word stops at a blank or at the end of the text. -/
theorem read_append (spelling : Spelling) {rest : Text}
    (ends : ∀ c ∈ rest.head?, isWordBreak c = true) :
    Lexeme.read .bare (spelling.written ++ rest) = ⟨spelling.value, spelling.written⟩ := by
  have reads (segments : List Segment) :
      Lexeme.read .bare (segments.flatMap Segment.written ++ rest) =
        ⟨segments.flatMap Segment.value, segments.flatMap Segment.written⟩ := by
    induction segments with
    | nil => exact Lexeme.read_of_isWordBreak ends
    | cons segment segments ih =>
      rw [List.flatMap_cons, List.append_assoc, Lexeme.read_segment_append, ih]
      rfl
  exact reads spelling.segments

theorem lexemes_append (spelling : Spelling) {rest : Text}
    (ends : ∀ c ∈ rest.head?, isWordBreak c = true) :
    lexemes (spelling.written ++ rest) =
      ⟨spelling.value, spelling.written⟩ :: lexemes rest := by
  obtain ⟨c, behind, shape, bare⟩ := spelling.exists_written_eq_cons
  refine MakeRules.lexemes_append ?_ ?_ (spelling.read_append ends)
  · rw [shape]
    exact List.cons_ne_nil c behind
  · rw [shape]
    exact fun d first => Option.some.inj first ▸ bare

end Spelling

theorem Segment.wordValues_append (segment : Segment) {rest : Text}
    (ends : ∀ c ∈ rest.head?, isWordBreak c = true) :
    wordValues (segment.written ++ rest) = segment.value :: wordValues rest := by
  let spelling : Spelling := ⟨[segment], List.cons_ne_nil segment []⟩
  have written : spelling.written = segment.written := List.flatMap_singleton ..
  have value : spelling.value = segment.value := List.flatMap_singleton ..
  rw [← written, ← value, ← map_value_lexemes, spelling.lexemes_append ends, List.map_cons,
    map_value_lexemes]

theorem lexemes_append_of_isWordBreak {gap : Text} (blank : ∀ c ∈ gap, isWordBreak c = true)
    (rest : Text) : lexemes (gap ++ rest) = lexemes rest := by
  induction gap with
  | nil => rfl
  | cons c gap ih =>
    rw [List.cons_append, lexemes_cons_of_isWordBreak (blank c List.mem_cons_self),
      ih fun d member => blank d (List.mem_cons_of_mem _ member)]

/-- Spelled words, each with the blanks behind it. Only the last word needs none. -/
structure SpelledLine where
  front : Text
  words : List (Spelling × Text)
  front_blank : ∀ c ∈ front, isWordBreak c = true
  gaps_blank : ∀ word ∈ words, ∀ c ∈ word.2, isWordBreak c = true
  apart : ∀ word ∈ words.dropLast, word.2 ≠ []

namespace SpelledLine

/-- Words with the blanks behind each. -/
def written (words : List (Spelling × Text)) : Text :=
  words.flatMap fun (spelling, gap) => spelling.written ++ gap

def text (line : SpelledLine) : Text :=
  line.front ++ written line.words

theorem written_cons (spelling : Spelling) (gap : Text) (words : List (Spelling × Text)) :
    written ((spelling, gap) :: words) = spelling.written ++ (gap ++ written words) := by
  rw [written, List.flatMap_cons, List.append_assoc]
  rfl

theorem lexemes_written {words : List (Spelling × Text)}
    (blank : ∀ word ∈ words, ∀ c ∈ word.2, isWordBreak c = true)
    (apart : ∀ word ∈ words.dropLast, word.2 ≠ []) :
    lexemes (written words) = words.map fun (spelling, _) => ⟨spelling.value, spelling.written⟩ := by
  induction words with
  | nil => rfl
  | cons word words ih =>
    obtain ⟨spelling, gap⟩ := word
    have gap_blank : ∀ c ∈ gap, isWordBreak c = true := blank (spelling, gap) List.mem_cons_self
    have later := ih fun other member => blank other (List.mem_cons_of_mem _ member)
    have ends : ∀ c ∈ (gap ++ written words).head?, isWordBreak c = true := by
      cases gap with
      | cons d gap => exact fun c first => Option.some.inj first ▸ gap_blank d List.mem_cons_self
      | nil =>
        -- without blanks behind it the word is the last one
        cases words with
        | nil => exact nofun
        | cons next words => exact absurd rfl (apart (spelling, []) List.mem_cons_self)
    rw [written_cons, spelling.lexemes_append ends, lexemes_append_of_isWordBreak gap_blank, later,
      List.map_cons]
    cases words with
    | nil => exact nofun
    | cons next words => exact fun other member => apart other (List.mem_cons_of_mem _ member)

/-- The words of a line are its spelled words, in order: each has the value that its segments
make up, and the form in which it is spelled. -/
theorem splitWords_text (line : SpelledLine) :
    (splitWords line.text).map (fun word => (word.value, word.lexeme)) =
      line.words.map fun (spelling, _) => (spelling.value, spelling.written) := by
  have words : lexemes line.text = _ :=
    (lexemes_append_of_isWordBreak line.front_blank _).trans
      (lexemes_written line.gaps_blank line.apart)
  calc (splitWords line.text).map (fun word => (word.value, word.lexeme))
      = (lexemes line.text).map fun lexeme => (lexeme.value, lexeme.written) := by
        rw [lexemes, List.map_map]
        rfl
    _ = line.words.map fun (spelling, _) => (spelling.value, spelling.written) := by
        rw [words, List.map_map]
        rfl

/-- An empty word in quotes, and a word whose parts are written in all four ways. -/
theorem splitWords_text_of_four_ways :
    ∃ line : SpelledLine,
      line.words.map (fun (spelling, _) => spelling.segments.map Segment.written) =
        [["''".toList],
          ["a".toList, "\\ ".toList, "'b c'".toList, "\"\\\"\\$d\\\\\"".toList]] ∧
      line.text = "  ''\ta\\ 'b c'\"\\\"\\$d\\\\\" ".toList ∧
      (splitWords line.text).map (fun word => (word.value, word.lexeme)) =
        [([], "''".toList), ("a b c\"$d\\".toList, "a\\ 'b c'\"\\\"\\$d\\\\\"".toList)] := by
  let empty : Spelling := ⟨[.single [] List.not_mem_nil], List.cons_ne_nil _ _⟩
  let mixed : Spelling := {
    segments := [
      .plain ['a'] (List.cons_ne_nil _ _) (List.forall_mem_singleton.2 (by decide)),
      .guarded ' ',
      .single "b c".toList (by decide),
      .double "\"$d\\".toList]
    some_segment := List.cons_ne_nil _ _ }
  let line : SpelledLine := {
    front := [' ', ' ']
    words := [(empty, ['\t']), (mixed, [' '])]
    front_blank := by simp [isWordBreak]
    gaps_blank := by simp [isWordBreak]
    apart := by simp }
  refine ⟨line, by decide, by decide, ?_⟩
  rw [splitWords_text]
  decide

end SpelledLine

end MakeRules
