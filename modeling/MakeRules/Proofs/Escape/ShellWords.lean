import MakeRules.Proofs.Escape.Dollars
import MakeRules.Proofs.Makefile.Comments
import MakeRules.Proofs.Words

/-! Paths as shell words, and the words that are read of them.

The escaper guards blanks, brackets, hashes, ampersands and dollars. Tabs, quotes and backslashes
it leaves bare, though they mean more to the reader than themselves. So a path is read back if and
only if it has no tab and no quote, and each of its backslashes ends it or stands before a guarded
character that means nothing to the reader.
-/

set_option autoImplicit false

namespace MakeRules

namespace Escape

/-- The characters that the escaper leaves bare though the reader takes them for more than
themselves. -/
def unguarded : List Char := ['\t', '\'', '"', '\\']

/-- What is read of a path as a shell word with a text behind it, from within a quote. -/
inductive ReadsAs (behind : Text) : Quote → Text → Text → Prop where
  /-- What is read of the text behind becomes part of the word. -/
  | ended (quote : Quote) : ReadsAs behind quote [] (Lexeme.read quote behind).value
  | stopped (path : Text) : ReadsAs behind .bare ('\t' :: path) []
  | copied {quote : Quote} {c : Char} {path value : Text} (plain : quote = .bare → c ∉ unguarded)
      (rest : ReadsAs behind quote path value) : ReadsAs behind quote (c :: path) (c :: value)
  /-- A quote is opened or closed. -/
  | dropped {quote next : Quote} {c : Char} {path value : Text} (delimits : c ∈ ['\'', '"'])
      (rest : ReadsAs behind next path value) : ReadsAs behind quote (c :: path) value
  /-- A backslash of the path guards the character behind it. -/
  | paired {quote : Quote} {c : Char} {path value : Text}
      (rest : ReadsAs behind quote path value) :
      ReadsAs behind quote ('\\' :: c :: path) (c :: value)
  /-- Within a quote the backslash of the escaper stands for itself. -/
  | shown {quote : Quote} {c : Char} {path value : Text} (quoted : quote ≠ .bare)
      (special : c ∈ shellSpecial) (rest : ReadsAs behind quote path value) :
      ReadsAs behind quote (c :: path) ('\\' :: c :: value)
  /-- A backslash of the path is guarded by that of the escaper, the character behind it is not. -/
  | kept {quote : Quote} {c : Char} {path value : Text} (special : c ∈ shellSpecial)
      (inside : quote = .bare → c ≠ ' ') (rest : ReadsAs behind quote path value) :
      ReadsAs behind quote ('\\' :: c :: path) ('\\' :: c :: value)
  | spaced (path : Text) : ReadsAs behind .bare ('\\' :: ' ' :: path) ['\\']
  /-- A backslash at the end guards what stands behind the path. -/
  | last : ReadsAs behind .bare ['\\'] (Lexeme.read .bare ('\\' :: behind)).value

end Escape

open Escape

namespace Lexeme

theorem read_bare_cons {c : Char} (plain : c ∉ unguarded) (space : c ≠ ' ') (rest : Text) :
    read .bare (c :: rest) = (read .bare rest).behind [c] [c] := by
  refine read_plain_cons (fun bare => ?_) rest
  simp only [unguarded, List.mem_cons, List.not_mem_nil, or_false, not_or] at plain
  simp [special, plain, space] at bare

theorem read_double_slash_slash (rest : Text) :
    read .double ('\\' :: '\\' :: rest) = (read .double rest).behind ['\\', '\\'] ['\\'] := by
  rw [read]

end Lexeme

namespace Escape

theorem not_unguarded_of_special {c : Char} (special : c ∈ shellSpecial) : c ∉ unguarded := by
  have characters : shellSpecial = ['(', ')', '#', '&', '$', ' '] := rfl
  simp only [characters, List.mem_cons, List.not_mem_nil, or_false] at special
  obtain rfl | rfl | rfl | rfl | rfl | rfl := special <;> decide

theorem ne_of_special {c d : Char} (special : c ∈ shellSpecial) (bare : d ∈ unguarded) : c ≠ d := by
  rintro rfl
  exact not_unguarded_of_special special bare

theorem ne_space_of_not_special {c : Char} (bare : c ∉ shellSpecial) : c ≠ ' ' := by
  rintro rfl
  exact bare (by decide)

theorem unguarded_of_delimits {c : Char} (delimits : c ∈ ['\'', '"']) :
    c ∈ unguarded ∧ c ≠ '\\' := by
  simp only [List.mem_cons, List.not_mem_nil, or_false] at delimits
  obtain rfl | rfl := delimits <;> decide

section

variable {behind : Text} {c : Char} {rest : Text}

variable (shorter : ∀ quote path, path.length < (c :: rest).length →
  ReadsAs behind quote path (Lexeme.read quote (shell path ++ behind)).value)

include shorter

theorem readsAs_bare :
    ReadsAs behind .bare (c :: rest) (Lexeme.read .bare (shell (c :: rest) ++ behind)).value := by
  have later := fun quote => shorter quote rest (Nat.lt_succ_self _)
  by_cases special : c ∈ shellSpecial
  · rw [shell_cons_of_special special, List.cons_append, List.cons_append, Lexeme.read_bare_slash]
    exact .copied (fun _ => not_unguarded_of_special special) (later .bare)
  · rw [shell_cons_of_bare special, List.cons_append]
    by_cases plain : c ∉ unguarded
    · rw [Lexeme.read_bare_cons plain (ne_space_of_not_special special)]
      exact .copied (fun _ => plain) (later .bare)
    · simp only [unguarded, List.mem_cons, List.not_mem_nil, or_false, not_not] at plain
      obtain rfl | rfl | rfl | rfl := plain
      · exact .stopped rest
      · exact .dropped (by decide) (later .single)
      · exact .dropped (by decide) (later .double)
      · -- a backslash of the path: what it guards depends on what the escaper puts behind it
        match rest with
        | [] => exact .last
        | d :: rest =>
          have later := shorter .bare rest (by simp only [List.length_cons]; omega)
          by_cases special : d ∈ shellSpecial
          · rw [shell_cons_of_special special, List.cons_append, List.cons_append,
              Lexeme.read_bare_slash]
            by_cases space : d = ' '
            · subst space
              exact .spaced rest
            · rw [Lexeme.read_bare_cons (not_unguarded_of_special special) space]
              exact .kept special (fun _ => space) later
          · rw [shell_cons_of_bare special, List.cons_append, Lexeme.read_bare_slash]
            exact .paired later

theorem readsAs_single :
    ReadsAs behind .single (c :: rest)
      (Lexeme.read .single (shell (c :: rest) ++ behind)).value := by
  have later := fun quote => shorter quote rest (Nat.lt_succ_self _)
  by_cases special : c ∈ shellSpecial
  · rw [shell_cons_of_special special, List.cons_append, List.cons_append,
      Lexeme.read_single_cons (by decide),
      Lexeme.read_single_cons (ne_of_special special (by decide))]
    exact .shown nofun special (later .single)
  · rw [shell_cons_of_bare special, List.cons_append]
    by_cases closes : c = '\''
    · subst closes
      exact .dropped (by decide) (later .bare)
    · rw [Lexeme.read_single_cons closes]
      exact .copied nofun (later .single)

/-- Within double quotes it matters what a backslash at the end stands before. -/
theorem readsAs_double (next_space : ∀ c ∈ behind.head?, c = ' ') :
    ReadsAs behind .double (c :: rest)
      (Lexeme.read .double (shell (c :: rest) ++ behind)).value := by
  have later := fun quote => shorter quote rest (Nat.lt_succ_self _)
  by_cases special : c ∈ shellSpecial
  · have quote : c ≠ '"' := ne_of_special special (by decide)
    have slash : c ≠ '\\' := ne_of_special special (by decide)
    rw [shell_cons_of_special special, List.cons_append, List.cons_append]
    by_cases dollar : c = '$'
    · subst dollar
      exact .copied nofun (later .double)
    · rw [Lexeme.read_double_slash ⟨quote, slash, dollar⟩, Lexeme.read_double_cons quote slash]
      exact .shown nofun special (later .double)
  · rw [shell_cons_of_bare special, List.cons_append]
    by_cases closes : c = '"'
    · subst closes
      exact .dropped (by decide) (later .bare)
    by_cases slash : c = '\\'
    · subst slash
      match rest with
      | [] =>
        have copied : (Lexeme.read .double ('\\' :: behind)).value =
            '\\' :: (Lexeme.read .double behind).value := by
          cases behind with
          | nil => rfl
          | cons d behind =>
            obtain rfl := next_space d rfl
            rfl
        exact copied ▸ .copied nofun (.ended .double)
      | d :: rest =>
        -- within double quotes only a quote and a backslash are guarded, and a special
        -- character brings the backslash of the escaper with it
        have next := shorter .double rest (by simp only [List.length_cons]; omega)
        by_cases special : d ∈ shellSpecial
        · have quote : d ≠ '"' := ne_of_special special (by decide)
          have slash : d ≠ '\\' := ne_of_special special (by decide)
          rw [shell_cons_of_special special, List.cons_append, List.cons_append,
            Lexeme.read_double_slash_slash, Lexeme.read_double_cons quote slash]
          exact .kept special nofun next
        · rw [shell_cons_of_bare special, List.cons_append]
          by_cases guards : d = '"' ∨ d = '\\'
          · obtain rfl | rfl := guards
            · exact .paired next
            · exact .paired next
          · obtain ⟨quote, slash⟩ := not_or.1 guards
            have dollar : d ≠ '$' := by
              rintro rfl
              exact special (by decide)
            rw [Lexeme.read_double_slash ⟨quote, slash, dollar⟩, ← List.cons_append,
              ← shell_cons_of_bare special]
            exact .copied nofun (later .double)
    · rw [Lexeme.read_double_cons closes slash]
      exact .copied nofun (later .double)

end

theorem readsAs_read {behind : Text} (next_space : ∀ c ∈ behind.head?, c = ' ') (quote : Quote)
    (path : Text) :
    ReadsAs behind quote path (Lexeme.read quote (shell path ++ behind)).value := by
  induction length : path.length using Nat.strongRecOn generalizing quote path with
  | ind count ih =>
    cases path with
    | nil => exact .ended quote
    | cons c rest =>
      have shorter := fun quote (path : Text) (less : path.length < (c :: rest).length) =>
        ih path.length (length ▸ less) quote path rfl
      cases quote with
      | bare => exact readsAs_bare shorter
      | single => exact readsAs_single shorter
      | double => exact readsAs_double shorter next_space

theorem space_of_head?_read {behind : Text} (next_space : ∀ c ∈ behind.head?, c = ' ')
    (quote : Quote) : ∀ c ∈ (Lexeme.read quote behind).value.head?, c = ' ' := by
  cases behind with
  | nil => cases quote <;> exact nofun
  | cons d behind =>
    obtain rfl := next_space d rfl
    intro c first
    cases quote with
    | bare => cases first
    | single | double => exact (Option.some.inj first).symm

/-- Characters of a path that the reader has taken away. A backslash alone is not among them
within a quote, where the escaper may add one. -/
structure Lost (quote : Quote) (lost : Text) : Prop where
  ne_nil : lost ≠ []
  bare : ∀ c ∈ lost, c ∈ unguarded
  slash : quote = .bare ∨ lost ≠ ['\\']

namespace Lost

variable {quote : Quote} {c : Char} {lost : Text}

theorem not_mem_of_special (taken : Lost quote lost) {d : Char} (special : d ∈ shellSpecial) :
    d ∉ lost :=
  fun member => not_unguarded_of_special special (taken.bare d member)

theorem singleton (bare : c ∈ unguarded) (slash : quote = .bare ∨ c ≠ '\\') : Lost quote [c] where
  ne_nil := by simp
  bare d member := List.mem_singleton.1 member ▸ bare
  slash := slash.imp_right fun other => by simpa using other

theorem turn (taken : Lost quote (c :: lost)) (quoted : quote ≠ .bare) :
    Lost quote (lost ++ [c]) where
  ne_nil := by simp
  bare d member := taken.bare d (by simpa [or_comm] using member)
  slash := .inr (by
    intro alone
    obtain ⟨rfl, rfl⟩ : lost = [] ∧ c = '\\' := by
      simpa [List.append_eq_singleton_iff] using alone
    exact taken.slash.elim quoted fun other => other rfl)

theorem concat (taken : Lost quote lost) (next : Quote) {d : Char} (bare : d ∈ unguarded)
    (other : d ≠ '\\') : Lost next (lost ++ [d]) where
  ne_nil := by simp
  bare e member := by
    rcases List.mem_append.1 member with earlier | last
    · exact taken.bare e earlier
    · exact List.mem_singleton.1 last ▸ bare
  slash := .inr (by simp [List.append_eq_singleton_iff, other])

theorem pair (taken : Lost quote (c :: lost)) : Lost quote (lost ++ ['\\', c]) where
  ne_nil := by simp
  bare d member := by
    simp only [List.mem_append, List.mem_cons, List.not_mem_nil, or_false] at member
    rcases member with earlier | rfl | rfl
    · exact taken.bare d (List.mem_cons_of_mem _ earlier)
    · decide
    · exact taken.bare d List.mem_cons_self
  slash := .inr (by simp [List.append_eq_singleton_iff])

end Lost

/-- What the reader takes away from the front is never made up for, as the backslashes that
the escaper adds stand before characters that the reader does not take away. -/
theorem ReadsAs.ne_append {behind path value : Text} {quote : Quote}
    (next_space : ∀ c ∈ behind.head?, c = ' ') (reads : ReadsAs behind quote path value)
    {lost : Text} (taken : Lost quote lost) : value ≠ lost ++ path := by
  intro same
  induction reads generalizing lost with
  | ended quote =>
    obtain ⟨first, others, rfl⟩ := List.exists_cons_of_ne_nil taken.ne_nil
    obtain rfl := space_of_head?_read next_space quote first (by rw [same]; rfl)
    exact taken.not_mem_of_special (by decide) List.mem_cons_self
  | stopped path => exact taken.ne_nil (List.append_eq_nil_iff.1 same.symm).1
  | copied plain rest ih =>
    obtain ⟨first, others, rfl⟩ := List.exists_cons_of_ne_nil taken.ne_nil
    obtain ⟨rfl, later⟩ := List.cons.inj same
    have quoted := fun bare => plain bare (taken.bare _ List.mem_cons_self)
    exact ih (taken.turn quoted) (by simpa using later)
  | @dropped _ next c path value delimits rest ih =>
    obtain ⟨bare, other⟩ := unguarded_of_delimits delimits
    exact ih (taken.concat next bare other) (by simpa using same)
  | paired rest ih =>
    obtain ⟨first, others, rfl⟩ := List.exists_cons_of_ne_nil taken.ne_nil
    obtain ⟨rfl, later⟩ := List.cons.inj same
    exact ih taken.pair (by simpa using later)
  | @shown _ c path value quoted special rest ih =>
    -- two characters are read of one, so a special one would have been taken away as well
    match lost, same with
    | [], _ => exact taken.ne_nil rfl
    | [first], same =>
      obtain ⟨rfl, _⟩ := List.cons.inj same
      exact taken.slash.elim quoted fun other => other rfl
    | _ :: second :: others, same =>
      obtain ⟨rfl, _⟩ := List.cons.inj (List.cons.inj same).2
      exact taken.not_mem_of_special special (by simp)
  | @kept _ c path value special inside rest ih =>
    match lost, same with
    | [], _ => exact taken.ne_nil rfl
    | [first], same =>
      obtain ⟨rfl, _⟩ := List.cons.inj (List.cons.inj same).2
      exact absurd special (by decide)
    | _ :: second :: others, same =>
      obtain ⟨rfl, _⟩ := List.cons.inj (List.cons.inj same).2
      exact taken.not_mem_of_special special (by simp)
  | spaced path =>
    -- the word stops before the path does
    have lengths := congrArg List.length same
    simp only [List.length_append, List.length_cons, List.length_nil] at lengths
    omega
  | last =>
    cases behind with
    | nil =>
      have alone : ['\\'] = lost ++ ['\\'] := same
      exact taken.ne_nil (List.self_eq_append_left.1 alone)
    | cons d behind =>
      obtain rfl := next_space d rfl
      obtain ⟨first, others, rfl⟩ := List.exists_cons_of_ne_nil taken.ne_nil
      obtain ⟨rfl, _⟩ := List.cons.inj same
      exact taken.not_mem_of_special (by decide) List.mem_cons_self

/-- A path that is read back from its shell word: no tab and no quote is in it, and each backslash
that does not end it stands before a character that is guarded, but for a space. -/
structure ReadsBack (path : Text) : Prop where
  bare : ∀ c ∈ path, c ≠ '\t' ∧ c ≠ '\'' ∧ c ≠ '"'
  slashes : ∀ before c after, path = before ++ '\\' :: c :: after → c ∈ shellSpecial ∧ c ≠ ' '

namespace ReadsBack

variable {c : Char} {path : Text}

theorem nil : ReadsBack [] where
  bare := nofun
  slashes before c after whole := by simp at whole

theorem slash : ReadsBack ['\\'] where
  bare c member := by
    rw [List.mem_singleton.1 member]
    decide
  slashes before c after whole := by
    have lengths := congrArg List.length whole
    simp only [List.length_append, List.length_cons, List.length_nil] at lengths
    omega

theorem cons (plain : c ∉ unguarded) (rest : ReadsBack path) : ReadsBack (c :: path) where
  bare d member := by
    rcases List.mem_cons.1 member with rfl | later
    · simp only [unguarded, List.mem_cons, List.not_mem_nil, or_false, not_or] at plain
      exact ⟨plain.1, plain.2.1, plain.2.2.1⟩
    · exact rest.bare d later
  slashes before d after whole := by
    cases before with
    | nil =>
      obtain ⟨rfl, _⟩ := List.cons.inj whole
      exact absurd (by decide) plain
    | cons first before => exact rest.slashes before d after (List.cons.inj whole).2

theorem guarded (special : c ∈ shellSpecial) (space : c ≠ ' ') (rest : ReadsBack path) :
    ReadsBack ('\\' :: c :: path) where
  bare d member := by
    rcases List.mem_cons.1 member with rfl | later
    · decide
    · exact (rest.cons (not_unguarded_of_special special)).bare d later
  slashes before d after whole := by
    cases before with
    | nil =>
      obtain ⟨rfl, _⟩ := List.cons.inj (List.cons.inj whole).2
      exact ⟨special, space⟩
    | cons first before =>
      exact (rest.cons (not_unguarded_of_special special)).slashes before d after
        (List.cons.inj whole).2

theorem tail (whole : ReadsBack (c :: path)) : ReadsBack path where
  bare d member := whole.bare d (List.mem_cons_of_mem _ member)
  slashes before d after split := whole.slashes (c :: before) d after (by rw [split]; rfl)

end ReadsBack

theorem ReadsAs.readsBack {behind path : Text} {quote : Quote}
    (next_space : ∀ c ∈ behind.head?, c = ' ') {value : Text}
    (reads : ReadsAs behind quote path value) (bare : quote = .bare) (same : value = path) :
    ReadsBack path ∧ (path.GoesOn → behind = []) := by
  induction reads with
  | ended quote => exact ⟨.nil, nofun⟩
  | stopped path => cases same
  | @copied _ c path value plain rest ih =>
    obtain ⟨readsBack, ends⟩ := ih bare (List.cons.inj same).2
    have slash : c ≠ '\\' := by
      rintro rfl
      exact plain bare (by decide)
    refine ⟨readsBack.cons (plain bare), fun goesOn => ends ?_⟩
    exact (Text.goesOn_cons_of_ne slash path).1 goesOn
  | @dropped _ next c path value delimits rest ih =>
    obtain ⟨unguarded, other⟩ := unguarded_of_delimits delimits
    cases rest.ne_append next_space (.singleton unguarded (.inr other)) same
  | @paired _ c path value rest ih =>
    -- the backslash is taken away
    obtain ⟨rfl, later⟩ := List.cons.inj same
    cases rest.ne_append next_space (.singleton (by decide) (.inl bare)) later
  | shown quoted special rest ih => cases quoted bare
  | @kept _ c path value special inside rest ih =>
    obtain ⟨readsBack, ends⟩ := ih bare (List.cons.inj (List.cons.inj same).2).2
    have slash : c ≠ '\\' := ne_of_special special (by decide)
    refine ⟨readsBack.guarded special (inside bare), fun goesOn => ends ?_⟩
    rwa [Text.goesOn_cons_of_ne_nil _ (List.cons_ne_nil c path),
      Text.goesOn_cons_of_ne slash] at goesOn
  | spaced path => cases same
  | last =>
    refine ⟨.slash, fun _ => ?_⟩
    cases behind with
    | nil => rfl
    | cons d behind =>
      obtain rfl := next_space d rfl
      cases (List.cons.inj same).1

/-- The value of the word is the path, and the word stops where the path does. -/
theorem ReadsBack.read_shell_append {path : Text} (readsBack : ReadsBack path) {behind : Text}
    (next_space : ∀ c ∈ behind.head?, c = ' ') (ends : path.GoesOn → behind = []) :
    Lexeme.read .bare (shell path ++ behind) = ⟨path, shell path⟩ := by
  match path with
  | [] =>
    apply Lexeme.read_of_isWordBreak
    intro c first
    rw [next_space c first]
    rfl
  | c :: path =>
    have rest := readsBack.tail
    by_cases special : c ∈ shellSpecial
    · have slash : c ≠ '\\' := ne_of_special special (by decide)
      rw [Text.goesOn_cons_of_ne slash] at ends
      rw [shell_cons_of_special special, List.cons_append, List.cons_append, Lexeme.read_bare_slash,
        rest.read_shell_append next_space ends]
      rfl
    by_cases slash : c = '\\'
    · subst slash
      match path with
      | [] =>
        obtain rfl := ends rfl
        rfl
      | d :: path =>
        obtain ⟨guarded, space⟩ := readsBack.slashes [] d path rfl
        have slash : d ≠ '\\' := ne_of_special guarded (by decide)
        rw [Text.goesOn_cons_of_ne_nil _ (List.cons_ne_nil d path),
          Text.goesOn_cons_of_ne slash] at ends
        rw [shell_cons_of_bare special, shell_cons_of_special guarded, List.cons_append,
          List.cons_append, List.cons_append, Lexeme.read_bare_slash,
          Lexeme.read_bare_cons (not_unguarded_of_special guarded) space,
          rest.tail.read_shell_append next_space ends]
        rfl
    · obtain ⟨tab, single, double⟩ := readsBack.bare c List.mem_cons_self
      have plain : c ∉ unguarded := by simp [unguarded, tab, single, double, slash]
      have space := ne_space_of_not_special special
      rw [Text.goesOn_cons_of_ne slash] at ends
      rw [shell_cons_of_bare special, List.cons_append, Lexeme.read_bare_cons plain space,
        rest.read_shell_append next_space ends]
      rfl

theorem shell_ne_nil {path : Text} (some_char : path ≠ []) : shell path ≠ [] := by
  obtain ⟨c, rest, rfl⟩ := List.exists_cons_of_ne_nil some_char
  rw [shell_cons, shellChar]
  split <;> simp

theorem isWordBreak_of_head?_shell {c : Char} {path : Text} (tab : c ≠ '\t') :
    ∀ d ∈ (shell (c :: path)).head?, isWordBreak d = false := by
  intro d first
  by_cases special : c ∈ shellSpecial
  · rw [shell_cons_of_special special] at first
    cases first
    rfl
  · have space := ne_space_of_not_special special
    rw [shell_cons_of_bare special] at first
    cases first
    simp [isWordBreak, tab, space]

theorem head?_wordValues {text : Text} (some_char : text ≠ [])
    (starts : ∀ c ∈ text.head?, isWordBreak c = false) :
    (wordValues text).head? = some (Lexeme.read .bare text).value := by
  obtain ⟨c, rest, rfl⟩ := List.exists_cons_of_ne_nil some_char
  simp [wordValues, splitWords, wordsFrom, starts c rfl]

theorem head?_wordValues_shell_append {c : Char} (tab : c ≠ '\t') (path behind : Text) :
    (wordValues (shell (c :: path) ++ behind)).head? =
      some (Lexeme.read .bare (shell (c :: path) ++ behind)).value := by
  have some_char := shell_ne_nil (List.cons_ne_nil c path)
  apply head?_wordValues (List.append_ne_nil_of_left_ne_nil some_char behind)
  · rw [List.head?_append_of_ne_nil _ some_char]
    exact isWordBreak_of_head?_shell tab

section

variable {behind : Text} (follows : behind = [] ∨ ∃ rest, behind = ' ' :: '&' :: rest)

include follows

theorem next_space_of_follows : ∀ c ∈ behind.head?, c = ' ' := by
  obtain rfl | ⟨rest, rfl⟩ := follows
  · exact nofun
  · exact fun c first => (Option.some.inj first).symm

/-- Tabs at the front are taken for breaks, and belong to no word. -/
theorem head?_wordValues_ne_of_tabs (path : Text) {tabs : Text} (some_tab : tabs ≠ [])
    (only : ∀ c ∈ tabs, c = '\t') :
    (wordValues (shell path ++ behind)).head? ≠ some (tabs ++ path) := by
  induction path generalizing tabs with
  | nil =>
    obtain ⟨first, others, rfl⟩ := List.exists_cons_of_ne_nil some_tab
    obtain rfl := only first List.mem_cons_self
    obtain rfl | ⟨rest, rfl⟩ := follows
    · intro same
      cases same
    · have starts : ∀ c ∈ ('&' :: rest).head?, isWordBreak c = false :=
        fun c first => Option.some.inj first ▸ rfl
      rw [shell_nil, List.nil_append, wordValues_cons_of_isWordBreak rfl,
        head?_wordValues (List.cons_ne_nil '&' rest) starts,
        Lexeme.read_bare_cons (by decide) (by decide)]
      intro same
      cases (List.cons.inj (Option.some.inj same)).1
  | cons c path ih =>
    by_cases tab : c = '\t'
    · subst tab
      have unread :
          wordValues (shell ('\t' :: path) ++ behind) = wordValues (shell path ++ behind) :=
        wordValues_cons_of_isWordBreak rfl _
      have more := ih (List.append_ne_nil_of_left_ne_nil some_tab ['\t']) fun c member =>
        (List.mem_append.1 member).elim (only c) List.mem_singleton.1
      rwa [unread, List.append_cons]
    · have reads := readsAs_read (next_space_of_follows follows) .bare (c :: path)
      rw [head?_wordValues_shell_append tab]
      intro same
      refine reads.ne_append (next_space_of_follows follows) ⟨some_tab, ?_, .inl rfl⟩
        (Option.some.inj same)
      intro d member
      rw [only d member]
      decide

/-- The first word is the path if and only if the path is read back, and does not guard what
stands behind it. -/
theorem head?_wordValues_shell_append_iff {path : Text} (some_char : path ≠ []) :
    (wordValues (shell path ++ behind)).head? = some path ↔
      ReadsBack path ∧ (path.GoesOn → behind = []) := by
  obtain ⟨c, rest, rfl⟩ := List.exists_cons_of_ne_nil some_char
  by_cases tab : c = '\t'
  · subst tab
    have unread : wordValues (shell ('\t' :: rest) ++ behind) = wordValues (shell rest ++ behind) :=
      wordValues_cons_of_isWordBreak rfl _
    rw [unread]
    refine iff_of_false ?_ fun ⟨readsBack, _⟩ => (readsBack.bare '\t' List.mem_cons_self).1 rfl
    exact head?_wordValues_ne_of_tabs follows rest (List.cons_ne_nil '\t' []) (by simp)
  · have next_space := next_space_of_follows follows
    rw [head?_wordValues_shell_append tab, Option.some_inj]
    constructor
    · exact (readsAs_read next_space .bare (c :: rest)).readsBack next_space rfl
    · rintro ⟨readsBack, ends⟩
      rw [readsBack.read_shell_append next_space ends]

end

/-- A path is all that is read of its shell word if and only if it is read back. -/
theorem wordValues_shell_eq_iff (path : Text) :
    wordValues (shell path) = [path] ↔ path ≠ [] ∧ ReadsBack path := by
  by_cases some_char : path = []
  · simp [some_char]
  · have first := @head?_wordValues_shell_append_iff [] (.inl rfl) path some_char
    rw [List.append_nil] at first
    constructor
    · intro same
      exact ⟨some_char, (first.1 (by rw [same]; rfl)).1⟩
    · rintro ⟨-, readsBack⟩
      obtain ⟨c, rest, rfl⟩ := List.exists_cons_of_ne_nil some_char
      have tab := (readsBack.bare c List.mem_cons_self).1
      have reads := @ReadsBack.read_shell_append _ readsBack [] nofun fun _ => rfl
      have words :=
        wordValues_append (shell_ne_nil some_char) (isWordBreak_of_head?_shell tab) reads
      rwa [List.append_nil] at words

end Escape

end MakeRules
