import MakeRules.Text.Basic

/-! The white space of log records, and trimming.

Three sets of characters matter: white space, around which records and names are
trimmed; line ends, which no directory operand crosses; and the blanks between
the words of a command, which are only space and tab.
-/

set_option autoImplicit false

namespace MakeRules

/-- Tab to CR, the space separators of Unicode, its line and paragraph separators, and U+FEFF. -/
def isSpace (c : Char) : Bool :=
  let n := c.toNat
  (9 ≤ n && n ≤ 13) || n == 0x20 || n == 0xA0 || n == 0x1680 || (0x2000 ≤ n && n ≤ 0x200A) ||
    n == 0x2028 || n == 0x2029 || n == 0x202F || n == 0x205F || n == 0x3000 || n == 0xFEFF

/-- LF, CR, and the line and paragraph separators of Unicode. -/
def isLineEnd (c : Char) : Bool :=
  c == '\n' || c == '\r' || c.toNat == 0x2028 || c.toNat == 0x2029

theorem isSpace_of_isLineEnd {c : Char} (ends : isLineEnd c = true) : isSpace c = true := by
  simp only [isLineEnd, Bool.or_eq_true, beq_iff_eq] at ends
  rcases ends with ((rfl | rfl) | is2028) | is2029
  · rfl
  · rfl
  · simp [isSpace, is2028]
  · simp [isSpace, is2029]

/-- Space and tab separate the words of a command. -/
def isWordBreak (c : Char) : Bool :=
  c == ' ' || c == '\t'

namespace Text

def trimStart (text : Text) : Text :=
  text.dropWhile isSpace

def trim (text : Text) : Text :=
  dropEndWhile isSpace text.trimStart

/-- The trimmed text, unless nothing is left of it. -/
def nonBlank? (text : Text) : Option Text :=
  if text.trim.isEmpty then none else some text.trim

/-- What stands behind a word at the front of a text: white space, and all after it. -/
def behindWord? (text word : Text) : Option Text :=
  match text.dropBeginning? word with
  | some (c :: rest) => if isSpace c then some (c :: rest) else none
  | _ => none

/-- Whether a text begins with a word, white space or the end of the text behind it. -/
def startsWithWord (text word : Text) : Bool :=
  text == word || (text.behindWord? word).isSome

end Text

end MakeRules
