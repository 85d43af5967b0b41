import MakeRules.Proofs.Text.Lines

/-! Text as words with white space between them.

A word goes on until white space comes, and white space until a word does. So a trimmed text that
is not blank can be seen in one way only as words with the white space before each but the first.
-/

set_option autoImplicit false

namespace MakeRules

namespace Text

/-- White space, and some of it. -/
def isGap (text : Text) : Bool :=
  !text.isEmpty && text.all isSpace

/-- Some characters, none of them white space. -/
def isSolid (text : Text) : Bool :=
  !text.isEmpty && text.all (!isSpace ·)

theorem isGap_iff {text : Text} :
    text.isGap = true ↔ text ≠ [] ∧ ∀ c ∈ text, isSpace c = true := by
  simp [isGap]

theorem isSolid_iff {text : Text} :
    text.isSolid = true ↔ text ≠ [] ∧ ∀ c ∈ text, isSpace c = false := by
  simp [isSolid]

theorem exists_eq_append_trimStart (text : Text) :
    ∃ gap : Text, (∀ c ∈ gap, isSpace c = true) ∧ text = gap ++ text.trimStart ∧
      ∀ c ∈ text.trimStart.head?, isSpace c = false := by
  induction text with
  | nil => exact ⟨[], List.forall_mem_nil _, rfl, by intro c first; cases first⟩
  | cons c rest ih =>
    cases space : isSpace c with
    | true =>
      obtain ⟨gap, spaces, shape, bare⟩ := ih
      have behind : trimStart (c :: rest) = trimStart rest := List.dropWhile_cons_of_pos space
      rw [behind]
      exact ⟨c :: gap, List.forall_mem_cons.2 ⟨space, spaces⟩, congrArg (c :: ·) shape, bare⟩
    | false =>
      have bare : ∀ d ∈ (c :: rest).head?, isSpace d = false :=
        fun d first => Option.some.inj first ▸ space
      rw [trimStart_eq_self bare]
      exact ⟨[], List.forall_mem_nil _, rfl, bare⟩

theorem exists_isGap_append_trimStart {c : Char} (space : isSpace c = true) (rest : Text) :
    ∃ gap : Text, gap.isGap = true ∧ c :: rest = gap ++ trimStart (c :: rest) ∧
      ∀ d ∈ (trimStart (c :: rest)).head?, isSpace d = false := by
  obtain ⟨gap, spaces, shape, bare⟩ := exists_eq_append_trimStart rest
  have behind : trimStart (c :: rest) = rest.trimStart := List.dropWhile_cons_of_pos space
  rw [behind]
  exact ⟨c :: gap,
    isGap_iff.2 ⟨List.cons_ne_nil c gap, List.forall_mem_cons.2 ⟨space, spaces⟩⟩,
    congrArg (c :: ·) shape, bare⟩

section

variable {holds : Char → Bool} {front rest : Text}

/-- A text is cut in one way only where a condition first fails. -/
theorem append_inj_of_ends {front' rest' : Text} (within : ∀ c ∈ front, holds c = true)
    (ends : ∀ c ∈ rest.head?, holds c = false) (within' : ∀ c ∈ front', holds c = true)
    (ends' : ∀ c ∈ rest'.head?, holds c = false) (same : front ++ rest = front' ++ rest') :
    front = front' ∧ rest = rest' := by
  have behind : rest = rest' := by
    rw [← dropWhile_append_eq within ends, same, dropWhile_append_eq within' ends']
  exact ⟨List.append_cancel_right (behind ▸ same), behind⟩

theorem append_inj_of_isSolid {front' rest' : Text} (solid : front.isSolid = true)
    (ends : ∀ c ∈ rest.head?, isSpace c = true) (solid' : front'.isSolid = true)
    (ends' : ∀ c ∈ rest'.head?, isSpace c = true) (same : front ++ rest = front' ++ rest') :
    front = front' ∧ rest = rest' := by
  have bare {text : Text} (solid : text.isSolid = true) : ∀ c ∈ text, (!isSpace c) = true :=
    fun c member => by rw [(isSolid_iff.1 solid).2 c member]; rfl
  have stops {text : Text} (ends : ∀ c ∈ text.head?, isSpace c = true) :
      ∀ c ∈ text.head?, (!isSpace c) = false :=
    fun c first => by rw [ends c first]; rfl
  exact append_inj_of_ends (bare solid) (stops ends) (bare solid') (stops ends') same

end

/-! ### A word at the front -/

theorem dropBeginning?_eq_some {text beginning rest : Text} :
    text.dropBeginning? beginning = some rest ↔ text = beginning ++ rest := by
  unfold dropBeginning?
  constructor
  · intro dropped
    split at dropped
    · next begins =>
      obtain ⟨behind, rfl⟩ := List.isPrefixOf_iff_prefix.1 begins
      simpa using dropped
    · cases dropped
  · rintro rfl
    simp

theorem behindWord?_eq_some {text word rest : Text} :
    text.behindWord? word = some rest ↔
      text = word ++ rest ∧ ∃ c behind, rest = c :: behind ∧ isSpace c = true := by
  unfold behindWord?
  constructor
  · intro found
    split at found
    · next c behind dropped =>
      split at found
      · next space =>
        obtain rfl := Option.some.inj found
        exact ⟨dropBeginning?_eq_some.1 dropped, c, behind, rfl, space⟩
      · cases found
    · cases found
  · rintro ⟨rfl, c, behind, rfl, space⟩
    rw [dropBeginning?_eq_some.2 rfl]
    simp [space]

theorem subset_of_behindWord? {text word rest : Text}
    (found : text.behindWord? word = some rest) : rest ⊆ text := by
  rw [(behindWord?_eq_some.1 found).1]
  exact List.subset_append_right _ _

theorem isPrefix_of_behindWord? {text word : Text}
    (found : (text.behindWord? word).isSome = true) : word <+: text := by
  obtain ⟨rest, found⟩ := Option.isSome_iff_exists.1 found
  exact ⟨rest, (behindWord?_eq_some.1 found).1.symm⟩

/-- A word that white space follows does not go on, so a longer beginning of the text has the
white space in it. -/
theorem eq_of_behindWord? {text word other : Text}
    (found : (text.behindWord? word).isSome = true) (shorter : word <+: other)
    (begins : other <+: text) (whole : other.behindWord? word = none) : word = other := by
  obtain ⟨rest, found⟩ := Option.isSome_iff_exists.1 found
  obtain ⟨rfl, c, behind, rfl, space⟩ := behindWord?_eq_some.1 found
  obtain ⟨more, rfl⟩ := shorter
  cases more with
  | nil => rw [List.append_nil]
  | cons d more =>
    obtain ⟨rfl, _⟩ := List.cons_prefix_cons.1 ((List.prefix_append_right_inj word).1 begins)
    cases whole.symm.trans (behindWord?_eq_some.2 ⟨rfl, d, more, rfl, space⟩)

theorem behindWord?_gap_append {word gap rest : Text} (isGap : gap.isGap = true) :
    (word ++ (gap ++ rest)).behindWord? word = some (gap ++ rest) := by
  obtain ⟨some_gap, spaces⟩ := isGap_iff.1 isGap
  obtain ⟨c, gap, rfl⟩ := List.exists_cons_of_ne_nil some_gap
  exact behindWord?_eq_some.2 ⟨rfl, c, gap ++ rest, rfl, spaces c List.mem_cons_self⟩

end Text

/-- A word and the white space before it. -/
structure SpacedWord where
  gap : Text
  word : Text
  gap_isGap : gap.isGap = true := by decide
  word_isSolid : word.isSolid = true := by decide
  deriving DecidableEq, Repr

def SpacedWord.text (word : SpacedWord) : Text :=
  word.gap ++ word.word

/-- A first word and the words behind it. -/
structure SpacedLine where
  first : Text
  later : List SpacedWord
  first_isSolid : first.isSolid = true := by decide
  deriving DecidableEq, Repr

namespace SpacedLine

/-- The text of words with the white space before each. -/
def spaced (words : List SpacedWord) : Text :=
  words.flatMap SpacedWord.text

def text (line : SpacedLine) : Text :=
  line.first ++ spaced line.later

@[simp] theorem spaced_nil : spaced [] = [] := rfl

theorem spaced_cons (word : SpacedWord) (words : List SpacedWord) :
    spaced (word :: words) = word.gap ++ (word.word ++ spaced words) := by
  rw [spaced, List.flatMap_cons, SpacedWord.text, List.append_assoc]
  rfl

theorem isSpace_of_head?_spaced (words : List SpacedWord) :
    ∀ c ∈ (spaced words).head?, isSpace c = true := by
  intro c first
  cases words with
  | nil => cases first
  | cons word words =>
    obtain ⟨some_text, space⟩ := Text.isGap_iff.1 word.gap_isGap
    rw [spaced_cons, List.head?_append_of_ne_nil _ some_text] at first
    exact space c (List.mem_of_mem_head? first)

theorem not_isSpace_of_head?_append {word : Text} (solid : word.isSolid = true) (rest : Text) :
    ∀ c ∈ (word ++ rest).head?, isSpace c = false := by
  intro c first
  obtain ⟨some_text, bare⟩ := Text.isSolid_iff.1 solid
  rw [List.head?_append_of_ne_nil _ some_text] at first
  exact bare c (List.mem_of_mem_head? first)

theorem spaced_eq_nil_iff {words : List SpacedWord} : spaced words = [] ↔ words = [] := by
  cases words with
  | nil => exact iff_of_true rfl rfl
  | cons word words =>
    refine iff_of_false (fun none => ?_) (List.cons_ne_nil word words)
    rw [spaced_cons] at none
    exact (Text.isGap_iff.1 word.gap_isGap).1 (List.append_eq_nil_iff.1 none).1

theorem trimStart_spaced_cons (word : SpacedWord) (words : List SpacedWord) :
    (spaced (word :: words)).trimStart = word.word ++ spaced words := by
  rw [spaced_cons]
  exact Text.trimStart_append word.gap (Text.isGap_iff.1 word.gap_isGap).2
    (not_isSpace_of_head?_append word.word_isSolid _)

theorem spaced_injective : Function.Injective spaced := by
  intro words words' same
  induction words generalizing words' with
  | nil => exact (spaced_eq_nil_iff.1 same.symm).symm
  | cons word words ih =>
    cases words' with
    | nil => exact spaced_eq_nil_iff.1 same
    | cons word' words' =>
      rw [spaced_cons, spaced_cons] at same
      obtain ⟨gaps, same⟩ := Text.append_inj_of_ends (Text.isGap_iff.1 word.gap_isGap).2
        (not_isSpace_of_head?_append word.word_isSolid _) (Text.isGap_iff.1 word'.gap_isGap).2
        (not_isSpace_of_head?_append word'.word_isSolid _) same
      obtain ⟨solid, later⟩ := Text.append_inj_of_isSolid word.word_isSolid
        (isSpace_of_head?_spaced words) word'.word_isSolid (isSpace_of_head?_spaced words') same
      rw [ih later]
      cases word
      cases word'
      cases gaps
      cases solid
      rfl

/-- There is one way only to see a text as words and the white space between them. -/
theorem text_injective : Function.Injective text := by
  intro line line' same
  obtain ⟨first, later⟩ := Text.append_inj_of_isSolid line.first_isSolid
    (isSpace_of_head?_spaced line.later) line'.first_isSolid
    (isSpace_of_head?_spaced line'.later) same
  cases line
  cases line'
  cases spaced_injective later
  cases first
  rfl

/-- A text that ends in no white space is words, with white space before each but perhaps the
first. -/
theorem exists_eq_append_spaced {text : Text} (some_text : text ≠ [])
    (last : ∀ c ∈ text.getLast?, isSpace c = false) :
    ∃ gap word words, text = gap ++ (word ++ spaced words) ∧ (∀ c ∈ gap, isSpace c = true) ∧
      word.isSolid = true := by
  induction text with
  | nil => exact absurd rfl some_text
  | cons c rest ih =>
    cases rest with
    | nil =>
      have bare : isSpace c = false := last c rfl
      exact ⟨[], [c], [], rfl, List.forall_mem_nil _, by simp [Text.isSolid, bare]⟩
    | cons d rest =>
      obtain ⟨gap, word, words, shape, space, solid⟩ := ih (List.cons_ne_nil d rest) last
      rw [shape]
      cases first : isSpace c with
      | true => exact ⟨c :: gap, word, words, rfl, List.forall_mem_cons.2 ⟨first, space⟩, solid⟩
      | false =>
        cases gap with
        | nil =>
          -- no gap parts the character from the word behind it
          have bare : ∀ e ∈ c :: word, isSpace e = false :=
            List.forall_mem_cons.2 ⟨first, (Text.isSolid_iff.1 solid).2⟩
          exact ⟨[], c :: word, words, rfl, space,
            Text.isSolid_iff.2 ⟨List.cons_ne_nil c word, bare⟩⟩
        | cons e gap =>
          have isGap : Text.isGap (e :: gap) = true :=
            Text.isGap_iff.2 ⟨List.cons_ne_nil e gap, space⟩
          refine ⟨[], [c], ⟨e :: gap, word, isGap, solid⟩ :: words, ?_, List.forall_mem_nil _,
            by simp [Text.isSolid, first]⟩
          rw [spaced_cons]
          rfl

theorem exists_text_eq {text : Text} (trimmed : text.trim = text) (some_text : text ≠ []) :
    ∃ line : SpacedLine, line.text = text := by
  have last : ∀ c ∈ text.getLast?, isSpace c = false := by
    rw [← trimmed]
    exact fun c => Text.not_isSpace_of_mem_getLast?_trim
  have first : ∀ c ∈ text.head?, isSpace c = false := by
    rw [← trimmed]
    exact fun c => Text.not_isSpace_of_mem_head?_trim
  obtain ⟨gap, word, words, shape, space, solid⟩ := exists_eq_append_spaced some_text last
  cases gap with
  | nil => exact ⟨⟨word, words, solid⟩, shape.symm⟩
  | cons c gap =>
    rw [shape] at first
    cases (space c List.mem_cons_self).symm.trans (first c rfl)

end SpacedLine

end MakeRules
