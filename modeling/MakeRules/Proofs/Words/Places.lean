import MakeRules.Proofs.Words
import MakeRules.Text.Units

/-! Where the words of a text stand.

The words cover a text but for the blanks between them: each begins behind the end of the one before
it, is cut out of the text at its places, and is all that is read of its own form. That holds of
every text, be it with a quote that never closes or with a backslash at its end.
-/

set_option autoImplicit false

namespace MakeRules

namespace Lexeme

/-- A word is followed by a blank, or by nothing. -/
theorem isWordBreak_of_head?_drop_read (quote : Quote) (text : Text) :
    ∀ c ∈ (text.drop (read quote text).written.length).head?, isWordBreak c = true := by
  fun_induction read quote text <;> simp_all [behind]

theorem written_read_ne_nil {c : Char} (bare : isWordBreak c = false) (rest : Text) :
    (read .bare (c :: rest)).written ≠ [] := by
  rw [read.eq_def]
  split <;> simp_all [behind]

theorem head?_written_read_double (text : Text) :
    (read .double text).written.head? = text.head? := by
  cases text with
  | nil => rfl
  | cons c rest =>
    rw [read.eq_def]
    split <;> simp_all [behind]

/-- Within double quotes a backslash that guards nothing stands for itself, like any other
character. -/
theorem read_double_cons_of_bare {c : Char} {rest : Text} (opens : c ≠ '"')
    (bare : c = '\\' → ∀ d ∈ rest.head?, d ≠ '"' ∧ d ≠ '\\' ∧ d ≠ '$') :
    read .double (c :: rest) = (read .double rest).behind [c] [c] := by
  by_cases slash : c = '\\'
  · subst slash
    cases rest with
    | nil => rfl
    | cons d rest => exact read_double_slash (bare rfl d rfl) rest
  · exact read_double_cons opens slash rest

/-- What is read does not depend on what stands behind the word. -/
theorem read_written (quote : Quote) (text : Text) :
    read quote (read quote text).written = read quote text := by
  fun_induction read quote text with
  | case1 => rw [read]
  | case2 | case6 => rfl
  | case3 c rest ih | case4 rest ih | case5 rest ih | case8 rest ih | case9 c rest _ ih
  | case10 rest ih | case11 rest ih | case12 rest ih | case13 rest ih => simp [read, behind, ih]
  | case7 c rest last guards single double bare ih =>
    have slash : c ≠ '\\' := by
      rintro rfl
      cases rest with
      | nil => exact last rfl rfl
      | cons d rest => exact guards d rest rfl rfl
    have plain : c ∉ special := by
      rw [isWordBreak] at bare
      simp_all [special]
    have alone := read_plain_cons plain (read .bare rest).written
    rwa [ih] at alone
  | case14 c rest opens quote slash dollar ih =>
    -- a backslash guards no more alone than it did in place, as the same character follows it
    have alone : read .double (c :: (read .double rest).written) =
        (read .double (read .double rest).written).behind [c] [c] := by
      refine read_double_cons_of_bare opens fun guards d first => ?_
      rw [head?_written_read_double] at first
      obtain ⟨others, rfl⟩ := List.head?_eq_some_iff.1 first
      refine ⟨?_, ?_, ?_⟩ <;> rintro rfl
      · exact quote others guards rfl
      · exact slash others guards rfl
      · exact dollar others guards rfl
    rwa [ih] at alone

/-- A character that is no blank begins a word, and a blank or the end of the text stops it. -/
theorem exists_read_eq {c : Char} (bare : isWordBreak c = false) (rest : Text) :
    ∃ value written behind, rest = written ++ behind ∧
      read .bare (c :: rest) = ⟨value, c :: written⟩ ∧
      read .bare (c :: written) = ⟨value, c :: written⟩ ∧
      ∀ d ∈ behind.head?, isWordBreak d = true := by
  have ends := isWordBreak_of_head?_drop_read .bare (c :: rest)
  have alone := read_written .bare (c :: rest)
  obtain ⟨behind, whole⟩ := written_isPrefix_read .bare (c :: rest)
  obtain ⟨first, written, shape⟩ := List.exists_cons_of_ne_nil (written_read_ne_nil bare rest)
  have reads : read .bare (c :: rest) = ⟨(read .bare (c :: rest)).value, first :: written⟩ := by
    rw [← shape]
  rw [shape] at whole ends alone
  obtain ⟨rfl, rfl⟩ := List.cons.inj whole
  exact ⟨_, written, behind, rfl, reads, alone.trans reads, by simpa using ends⟩

end Lexeme

/-- The words of a text that begins at an offset, from its front. -/
inductive WordsAt : Nat → Text → List Word → Prop where
  | none (offset : Nat) : WordsAt offset [] []
  | blank {offset : Nat} {c : Char} {rest : Text} {words : List Word}
      (breaks : isWordBreak c = true) (later : WordsAt (offset + 1) rest words) :
      WordsAt offset (c :: rest) words
  | word {offset : Nat} {c : Char} {value written rest : Text} {words : List Word}
      (bare : isWordBreak c = false) (ends : ∀ d ∈ rest.head?, isWordBreak d = true)
      (alone : Lexeme.read .bare (c :: written) = ⟨value, c :: written⟩)
      (later : WordsAt (offset + (c :: written).length) rest words) :
      WordsAt offset (c :: written ++ rest)
        (⟨value, c :: written, offset, offset + (c :: written).length⟩ :: words)

theorem wordsAt_wordsFrom (taken offset : Nat) (text : Text) :
    WordsAt (offset + (text.take taken).length) (text.drop taken)
      (wordsFrom taken offset text) := by
  fun_induction wordsFrom taken offset text with
  | case1 => simpa using WordsAt.none _
  | case2 taken offset _ rest ih => simpa [Nat.add_assoc, Nat.add_comm 1] using ih
  | case3 offset c rest breaks ih => exact .blank breaks ih
  | case4 offset c rest breaks lexeme ih =>
    have bare : isWordBreak c = false := by simpa using breaks
    obtain ⟨value, written, behind, rfl, reads, alone, ends⟩ := Lexeme.exists_read_eq bare rest
    rw [show lexeme = _ from reads] at ih ⊢
    refine .word bare ends alone ?_
    simpa [Nat.add_assoc, Nat.add_comm 1] using ih

theorem wordsAt_splitWords (text : Text) : WordsAt 0 text (splitWords text) :=
  wordsAt_wordsFrom 0 0 text

/-- The places where words start and stop, in their order. -/
def places (words : List Word) : List Nat :=
  words.flatMap fun word => [word.start, word.stop]

/-- Words laid over a text. All places count its letters, which are its 16-bit units. -/
structure Tiles (text : Text) (words : List Word) : Prop where
  /-- No word is empty, and between two there is at least one letter. -/
  ascending : (places words).Pairwise (· < ·)
  inside : ∀ word ∈ words, word.stop ≤ text.length
  /-- The form of a word is what stands between its places. -/
  cut : ∀ word ∈ words, word.lexeme = text.extract word.start word.stop
  /-- Nothing but spaces and tabs stands outside of the words. -/
  blank : ∀ place c, text[place]? = some c →
    (∀ word ∈ words, place < word.start ∨ word.stop ≤ place) → c = ' ' ∨ c = '\t'
  /-- Of its form alone the same word is read, and no other. -/
  alone : ∀ word ∈ words,
    splitWords word.lexeme = [{ word with start := 0, stop := word.lexeme.length }]

namespace WordsAt

variable {offset : Nat} {text : Text} {words : List Word} {word : Word}

theorem exists_text_eq (stands : WordsAt offset text words) (member : word ∈ words) :
    ∃ front behind, text = front ++ (word.lexeme ++ behind) ∧
      word.start = offset + front.length ∧
      word.stop = word.start + word.lexeme.length := by
  induction stands with
  | none => cases member
  | @blank _ c _ _ breaks _ ih =>
    obtain ⟨front, behind, rfl, start, stop⟩ := ih member
    refine ⟨c :: front, behind, rfl, ?_, stop⟩
    rw [start, List.length_cons]
    omega
  | @word _ c value written rest words bare ends alone _ ih =>
    rcases List.mem_cons.1 member with rfl | later
    · exact ⟨[], rest, rfl, rfl, rfl⟩
    · obtain ⟨front, behind, rfl, start, stop⟩ := ih later
      refine ⟨c :: written ++ front, behind, by simp, ?_, stop⟩
      rw [start, List.length_append, Nat.add_assoc]

theorem splitWords_lexeme (stands : WordsAt offset text words) (member : word ∈ words) :
    splitWords word.lexeme = [{ word with start := 0, stop := word.lexeme.length }] := by
  induction stands with
  | none => cases member
  | blank _ _ ih => exact ih member
  | @word _ c value written rest words bare ends alone _ ih =>
    rcases List.mem_cons.1 member with rfl | later
    · have starts : ∀ d ∈ (c :: written).head?, isWordBreak d = false :=
        fun d first => Option.some.inj first ▸ bare
      have reads : Lexeme.read .bare (c :: written ++ []) = ⟨value, c :: written⟩ := by
        rwa [List.append_nil]
      have single := wordsFrom_append 0 (List.cons_ne_nil c written) starts reads
      rwa [List.append_nil, Nat.zero_add] at single
    · exact ih later

theorem read_lexeme (stands : WordsAt offset text words) (member : word ∈ words) :
    Lexeme.read .bare word.lexeme = ⟨word.value, word.lexeme⟩ := by
  induction stands with
  | none => cases member
  | blank _ _ ih => exact ih member
  | word _ _ alone _ ih =>
    rcases List.mem_cons.1 member with rfl | later
    · exact alone
    · exact ih later

theorem le_of_mem_places (stands : WordsAt offset text words) {place : Nat}
    (member : place ∈ places words) : offset ≤ place := by
  obtain ⟨word, among, bound⟩ := List.mem_flatMap.1 member
  obtain ⟨front, _, -, start, stop⟩ := stands.exists_text_eq among
  simp only [List.mem_cons, List.not_mem_nil, or_false] at bound
  omega

/-- Where a blank stands first, or nothing, no word does. -/
theorem lt_of_mem_places (stands : WordsAt offset text words)
    (ends : ∀ c ∈ text.head?, isWordBreak c = true) {place : Nat}
    (member : place ∈ places words) : offset < place := by
  cases stands with
  | none => cases member
  | blank _ later => exact later.le_of_mem_places member
  | @word _ c _ _ _ _ bare => cases bare.symm.trans (ends c rfl)

theorem ascending (stands : WordsAt offset text words) : (places words).Pairwise (· < ·) := by
  induction stands with
  | none => exact .nil
  | blank _ _ ih => exact ih
  | @word offset c value written rest words bare ends alone later ih =>
    have own : offset < offset + (c :: written).length :=
      Nat.lt_add_of_pos_right (List.length_pos_of_mem List.mem_cons_self)
    have behind : ∀ place ∈ places words, offset + (c :: written).length < place :=
      fun place member => later.lt_of_mem_places ends member
    refine .cons (fun place member => ?_) (.cons behind ih)
    rcases List.mem_cons.1 member with rfl | member
    · exact own
    · exact Nat.lt_trans own (behind place member)

theorem isWordBreak_of_outside {place : Nat} {c : Char} (stands : WordsAt offset text words)
    (found : text[place]? = some c)
    (outside : ∀ word ∈ words, offset + place < word.start ∨ word.stop ≤ offset + place) :
    isWordBreak c = true := by
  induction stands generalizing place with
  | none => cases found
  | @blank offset first rest words breaks later ih =>
    cases place with
    | zero => exact Option.some.inj found ▸ breaks
    | succ place =>
      refine ih found fun word member => ?_
      have apart := outside word member
      omega
  | @word offset start value written rest words bare ends alone later ih =>
    obtain ⟨first, others⟩ := List.forall_mem_cons.1 outside
    have behind : (start :: written).length ≤ place := by
      simp only at first
      omega
    rw [List.getElem?_append_right behind] at found
    refine ih found fun word member => ?_
    have apart := others word member
    omega

end WordsAt

/-- The words that are read of a text tile it, whatever text it is. -/
theorem tiles_splitWords (text : Text) : Tiles text (splitWords text) where
  ascending := (wordsAt_splitWords text).ascending
  inside word member := by
    obtain ⟨front, behind, whole, start, stop⟩ := (wordsAt_splitWords text).exists_text_eq member
    have length := congrArg List.length whole
    simp only [List.length_append] at length
    omega
  cut word member := by
    obtain ⟨front, behind, whole, start, stop⟩ := (wordsAt_splitWords text).exists_text_eq member
    rw [Nat.zero_add] at start
    rw [whole, stop, start]
    simp [List.extract_eq_take_drop]
  blank place c found outside := by
    have breaks := (wordsAt_splitWords text).isWordBreak_of_outside found (by simpa using outside)
    simpa [isWordBreak] using breaks
  alone _ member := (wordsAt_splitWords text).splitWords_lexeme member

-- a quote that never closes, a character of two letters, and a backslash at the end
example : (splitWords (.ofString "a\t '😀 b\\")).map (fun word => (word.start, word.stop, word.value)) =
    [(0, 1, .ofString "a"), (3, 9, .ofString "😀 b\\")] := by decide

end MakeRules
