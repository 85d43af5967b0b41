/-! Text as a list of letters, and the two ways of cutting it into pieces.

A line break is LF or CRLF; a CR that no LF follows is an ordinary character.
Both splitters are right folds, so that a long text needs no deep stack, and
each comes with one equation for every way a text can begin.
-/

set_option autoImplicit false

namespace MakeRules

/-- A text is the sequence of its letters. A character below U+10000 is a letter, and one from
there on is two (`MakeRules.Text.Units`). -/
abbrev Text := List Char

namespace Text

/-- Put a character in front of the first piece. -/
def consHead (c : Char) : List Text → List Text
  | [] => [[c]]
  | piece :: rest => (c :: piece) :: rest

/-- The pieces between the occurrences of a separator, one more than there are occurrences. -/
def splitOn (sep : Char) (text : Text) : List Text :=
  text.foldr (fun c pieces => if c = sep then [] :: pieces else consHead c pieces) [[]]

@[simp] theorem splitOn_nil (sep : Char) : splitOn sep [] = [[]] := rfl

@[simp] theorem splitOn_cons_self (sep : Char) (text : Text) :
    splitOn sep (sep :: text) = [] :: splitOn sep text := by
  simp [splitOn]

theorem splitOn_cons_of_ne {sep c : Char} (different : c ≠ sep) (text : Text) :
    splitOn sep (c :: text) = consHead c (splitOn sep text) := by
  simp [splitOn, different]

/-- One step of `linePieces` from the right; the flag says whether the text behind begins
with LF. -/
def breakBefore (c : Char) (behind : List Text × Bool) : List Text × Bool :=
  if c = '\n' then ([] :: behind.1, true)
  else if c = '\r' ∧ behind.2 then (behind.1, false)
  else (consHead c behind.1, false)

/-- The pieces between line breaks, one more than there are line breaks. -/
def linePieces (text : Text) : List Text :=
  (text.foldr breakBefore ([[]], false)).1

@[simp] theorem linePieces_nil : linePieces [] = [[]] := rfl

@[simp] theorem linePieces_lf (text : Text) :
    linePieces ('\n' :: text) = [] :: linePieces text := rfl

@[simp] theorem linePieces_crlf (text : Text) :
    linePieces ('\r' :: '\n' :: text) = [] :: linePieces text := rfl

theorem foldr_breakBefore_snd (text : Text) :
    (text.foldr breakBefore ([[]], false)).2 = (text.head? == some '\n') := by
  cases text with
  | nil => rfl
  | cons c rest =>
    simp only [List.foldr_cons, breakBefore, List.head?_cons]
    split
    · simp_all
    · split <;> simp_all

/-- Any character that begins no line break belongs to the first piece. -/
theorem linePieces_cons {c : Char} (text : Text) (notLf : c ≠ '\n')
    (notCrlf : c = '\r' → text.head? ≠ some '\n') :
    linePieces (c :: text) = consHead c (linePieces text) := by
  have next := foldr_breakBefore_snd text
  simp only [linePieces, List.foldr_cons]
  rw [breakBefore, if_neg notLf, if_neg]
  rintro ⟨isCr, starts⟩
  rw [next] at starts
  exact notCrlf isCr (by simpa using starts)

theorem consHead_ne_nil (c : Char) (pieces : List Text) : consHead c pieces ≠ [] := by
  cases pieces <;> simp [consHead]

theorem linePieces_ne_nil (text : Text) : linePieces text ≠ [] := by
  simp only [linePieces]
  cases text with
  | nil => simp
  | cons c rest =>
    simp only [List.foldr_cons, breakBefore]
    split
    · simp
    · split
      · -- the LF behind a CR has already begun a piece
        next isCrlf =>
          have next := foldr_breakBefore_snd rest
          rw [isCrlf.2] at next
          cases rest with
          | nil => simp at next
          | cons d rest =>
            have isLf : d = '\n' := by simpa using next.symm
            simp [breakBefore, isLf]
      · exact consHead_ne_nil _ _

/-- The lines of a text: a line break at its very end begins no further line. -/
def lines (text : Text) : List Text :=
  if (linePieces text).getLast? = some [] then (linePieces text).dropLast else linePieces text

@[simp] theorem lines_nil : lines [] = [] := rfl

theorem lines_of_linePieces_cons {text rest : Text} {piece : Text}
    (pieces : linePieces text = piece :: linePieces rest) : lines text = piece :: lines rest := by
  obtain ⟨first, others, shape⟩ := List.exists_cons_of_ne_nil (linePieces_ne_nil rest)
  simp only [lines, pieces, shape, List.getLast?_cons_cons, List.dropLast_cons_cons]
  split <;> rfl

@[simp] theorem lines_lf (text : Text) : lines ('\n' :: text) = [] :: lines text :=
  lines_of_linePieces_cons (linePieces_lf text)

@[simp] theorem lines_crlf (text : Text) : lines ('\r' :: '\n' :: text) = [] :: lines text :=
  lines_of_linePieces_cons (linePieces_crlf text)

/-- The text on one line, a space standing for each line break. -/
def oneLine (text : Text) : Text :=
  [' '].intercalate (linePieces text)

/-- Drop the longest suffix of characters that satisfy a condition. -/
def dropEndWhile (drops : Char → Bool) (text : Text) : Text :=
  (text.reverse.dropWhile drops).reverse

/-- The text behind a given beginning, if it has that beginning. -/
def dropBeginning? (text beginning : Text) : Option Text :=
  if beginning.isPrefixOf text then some (text.drop beginning.length) else none

end Text

end MakeRules
