import MakeRules.Text.Space

/-! The words of a command line.

Space and tab separate words. Within a word a backslash guards the next
character, single quotes guard all up to the next one, and double quotes leave
to the backslash only the quote, the dollar and itself. A quote that never
closes runs to the end of the line.
-/

set_option autoImplicit false

namespace MakeRules

/-- A word: what it stands for, how it is written, and the offsets where its
written form starts and stops. -/
structure Word where
  value : Text
  lexeme : Text
  start : Nat
  stop : Nat
  deriving DecidableEq, Repr

/-- What guards the characters of a word. -/
inductive Quote where
  | bare
  | single
  | double
  deriving DecidableEq, Repr

/-- The part of a word that is read: its value and its written form. -/
structure Lexeme where
  value : Text
  written : Text
  deriving DecidableEq, Repr

/-- Put characters in front that are written so and mean so. -/
def Lexeme.behind (written value : Text) (lexeme : Lexeme) : Lexeme :=
  ⟨value ++ lexeme.value, written ++ lexeme.written⟩

/-- Read to the end of the word. -/
def Lexeme.read : Quote → Text → Lexeme
  | _, [] => ⟨[], []⟩
  | .bare, ['\\'] => ⟨['\\'], ['\\']⟩
  | .bare, '\\' :: c :: rest => (read .bare rest).behind ['\\', c] [c]
  | .bare, '\'' :: rest => (read .single rest).behind ['\''] []
  | .bare, '"' :: rest => (read .double rest).behind ['"'] []
  | .bare, c :: rest =>
    if isWordBreak c then ⟨[], []⟩ else (read .bare rest).behind [c] [c]
  | .single, '\'' :: rest => (read .bare rest).behind ['\''] []
  | .single, c :: rest => (read .single rest).behind [c] [c]
  | .double, '"' :: rest => (read .bare rest).behind ['"'] []
  | .double, '\\' :: '"' :: rest => (read .double rest).behind ['\\', '"'] ['"']
  | .double, '\\' :: '\\' :: rest => (read .double rest).behind ['\\', '\\'] ['\\']
  | .double, '\\' :: '$' :: rest => (read .double rest).behind ['\\', '$'] ['$']
  -- before any other character a backslash stands for itself
  | .double, c :: rest => (read .double rest).behind [c] [c]

/-- What is read is a beginning of the text. -/
theorem Lexeme.written_isPrefix_read (quote : Quote) (text : Text) :
    (read quote text).written <+: text := by
  fun_induction read quote text <;> simp_all [behind, List.prefix_cons_iff]

/-- The words of a text whose first characters belong to the word before. -/
def wordsFrom : (taken offset : Nat) → Text → List Word
  | _, _, [] => []
  | taken + 1, offset, _ :: rest => wordsFrom taken (offset + 1) rest
  | 0, offset, c :: rest =>
    if isWordBreak c then wordsFrom 0 (offset + 1) rest
    else
      let lexeme := Lexeme.read .bare (c :: rest)
      { value := lexeme.value
        lexeme := lexeme.written
        start := offset
        stop := offset + lexeme.written.length } ::
        -- the first character of the word is this one
        wordsFrom (lexeme.written.length - 1) (offset + 1) rest

/-- Characters of the word before are passed over. -/
theorem wordsFrom_eq_drop (taken offset : Nat) (text : Text) :
    wordsFrom taken offset text =
      wordsFrom 0 (offset + (text.take taken).length) (text.drop taken) := by
  induction text generalizing taken offset with
  | nil => cases taken <;> rfl
  | cons c rest ih =>
    cases taken with
    | zero => simp
    | succ taken =>
      simp only [wordsFrom, List.take_succ_cons, List.drop_succ_cons, List.length_cons]
      rw [ih, Nat.add_assoc, Nat.add_comm 1]

def splitWords (text : Text) : List Word :=
  wordsFrom 0 0 text

/-- The words that follow an option, but where the word before the option is the guard. -/
def valuesBehind (option : Text) (guard : Option Text) : Option Text → List Text → List Text
  | before, word :: next :: rest =>
    let others := valuesBehind option guard (some word) (next :: rest)
    if word = option ∧ ¬ (guard.isSome ∧ before = guard) then next :: others else others
  | _, _ => []

/-- The values of an option: the words behind its occurrences, in order. An occurrence
directly behind the guard belongs to that flag and does not count. -/
def optionValues (words : List Word) (option : Text) (guard : Option Text := none) : List Text :=
  valuesBehind option guard none (words.map (·.value))

def optionValue? (words : List Word) (option : Text) (guard : Option Text := none) : Option Text :=
  (optionValues words option guard).head?

end MakeRules
