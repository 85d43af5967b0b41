import MakeRules.Text.Space
import Mathlib.Data.List.Basic

/-! Reading lines back from the text that they were written to, lines of a text behind
which another goes on, and texts that trimming leaves alone.
-/

set_option autoImplicit false

namespace MakeRules.Text

section

variable {sep : Char}

theorem not_mem_of_mem_consHead {c : Char} {pieces : List Text} {piece : Text} (other : c ≠ sep)
    (whole : ∀ piece ∈ pieces, sep ∉ piece) (member : piece ∈ consHead c pieces) : sep ∉ piece := by
  cases pieces with
  | nil =>
    rw [consHead, List.mem_singleton] at member
    simpa [member] using Ne.symm other
  | cons first others =>
    obtain ⟨front, later⟩ := List.forall_mem_cons.1 whole
    rcases List.mem_cons.1 member with rfl | behind
    · rw [List.mem_cons, not_or]
      exact ⟨Ne.symm other, front⟩
    · exact later piece behind

theorem splitOn_ne_nil (sep : Char) (text : Text) : splitOn sep text ≠ [] := by
  cases text with
  | nil => simp
  | cons c rest =>
    by_cases isSep : c = sep
    · simp [isSep]
    · rw [splitOn_cons_of_ne isSep]
      exact consHead_ne_nil _ _

theorem splitOn_of_not_mem {piece : Text} (whole : sep ∉ piece) : splitOn sep piece = [piece] := by
  induction piece with
  | nil => rfl
  | cons c piece ih =>
    obtain ⟨different, whole⟩ := not_or.1 fun found => whole (List.mem_cons.2 found)
    rw [splitOn_cons_of_ne (Ne.symm different), ih whole]
    rfl

theorem splitOn_append_cons (front rest : Text) :
    splitOn sep (front ++ sep :: rest) = splitOn sep front ++ splitOn sep rest := by
  induction front with
  | nil => simp
  | cons c front ih =>
    by_cases isSep : c = sep
    · simp [isSep, ih]
    · obtain ⟨first, others, shape⟩ := List.exists_cons_of_ne_nil (splitOn_ne_nil sep front)
      rw [List.cons_append, splitOn_cons_of_ne isSep, splitOn_cons_of_ne isSep, ih, shape]
      rfl

theorem splitOn_append {piece : Text} (whole : sep ∉ piece) (rest : Text) :
    splitOn sep (piece ++ sep :: rest) = piece :: splitOn sep rest := by
  rw [splitOn_append_cons, splitOn_of_not_mem whole]
  rfl

theorem not_mem_of_mem_splitOn {text piece : Text} (member : piece ∈ splitOn sep text) :
    sep ∉ piece := by
  induction text generalizing piece with
  | nil => simp_all
  | cons c text ih =>
    by_cases isSep : c = sep
    · subst isSep
      rw [splitOn_cons_self] at member
      rcases List.mem_cons.1 member with rfl | later
      · exact List.not_mem_nil
      · exact ih later
    · rw [splitOn_cons_of_ne isSep] at member
      exact not_mem_of_mem_consHead isSep (fun _ => ih) member

/-- Each line that is written is cut at its own separators, and nothing stands behind the last. -/
theorem splitOn_flatMap_ended (lines : List Text) :
    splitOn sep (lines.flatMap (· ++ [sep])) = lines.flatMap (splitOn sep) ++ [[]] := by
  induction lines with
  | nil => rfl
  | cons line lines ih =>
    rw [List.flatMap_cons, List.flatMap_cons, List.append_assoc, List.append_assoc,
      List.singleton_append, splitOn_append_cons, ih]

theorem getLast?_flatMap_ended {lines : List Text} (some_line : lines ≠ []) :
    (lines.flatMap (· ++ [sep])).getLast? = some sep := by
  obtain rfl | ⟨front, last, rfl⟩ := lines.eq_nil_or_concat
  · exact absurd rfl some_line
  · rw [List.concat_eq_append, List.flatMap_append, List.flatMap_singleton, ← List.append_assoc,
      List.getLast?_concat]

theorem flatMap_splitOn_eq_self {lines : List Text} (whole : ∀ line ∈ lines, sep ∉ line) :
    lines.flatMap (splitOn sep) = lines := by
  induction lines with
  | nil => rfl
  | cons line lines ih =>
    obtain ⟨first, rest⟩ := List.forall_mem_cons.1 whole
    rw [List.flatMap_cons, splitOn_of_not_mem first, ih rest, List.singleton_append]

/-- What is written line by line is read back if and only if no line holds the separator. -/
theorem splitOn_flatMap_ended_eq_iff {lines : List Text} :
    splitOn sep (lines.flatMap (· ++ [sep])) = lines ++ [[]] ↔ ∀ line ∈ lines, sep ∉ line := by
  constructor
  · intro same line member
    apply not_mem_of_mem_splitOn
    rw [same]
    exact List.mem_append_left _ member
  · intro whole
    rw [splitOn_flatMap_ended, flatMap_splitOn_eq_self whole]

end

theorem linePieces_of_not_mem {line : Text} (noLf : '\n' ∉ line) : linePieces line = [line] := by
  induction line with
  | nil => rfl
  | cons c line ih =>
    obtain ⟨different, noLf⟩ := not_or.1 fun found => noLf (List.mem_cons.2 found)
    rw [linePieces_cons line (Ne.symm different), ih noLf]
    · rfl
    · intro _ starts
      exact noLf (List.mem_of_mem_head? starts)

/-- A CR at the end of the line would belong to the line break. -/
theorem linePieces_append_lf {line : Text} (noLf : '\n' ∉ line) (noCr : line.getLast? ≠ some '\r')
    (rest : Text) : linePieces (line ++ '\n' :: rest) = line :: linePieces rest := by
  induction line with
  | nil => rfl
  | cons c line ih =>
    obtain ⟨different, noLf⟩ := not_or.1 fun found => noLf (List.mem_cons.2 found)
    have next : linePieces (line ++ '\n' :: rest) = line :: linePieces rest := by
      cases line with
      | nil => rfl
      | cons d line => exact ih noLf (by simpa using noCr)
    rw [List.cons_append, linePieces_cons _ (Ne.symm different), next]
    · rfl
    · intro isCr
      cases line with
      | nil => simp [isCr] at noCr
      | cons d line =>
        intro starts
        exact noLf (by simpa using Or.inl (Option.some.inj starts).symm)

theorem lf_not_mem_of_mem_linePieces {text piece : Text} (member : piece ∈ linePieces text) :
    '\n' ∉ piece := by
  unfold linePieces at member
  induction text generalizing piece with
  | nil => simp_all
  | cons c text ih =>
    rw [List.foldr_cons] at member
    generalize text.foldr breakBefore ([[]], false) = behind at ih member
    unfold breakBefore at member
    split at member
    · rcases List.mem_cons.1 member with rfl | later
      · exact List.not_mem_nil
      · exact ih later
    · next notLf =>
      split at member
      · exact ih member
      · exact not_mem_of_mem_consHead notLf (fun _ => ih) member

theorem lf_not_mem_of_mem_lines {text line : Text} (member : line ∈ lines text) : '\n' ∉ line := by
  apply @lf_not_mem_of_mem_linePieces text
  unfold lines at member
  split at member
  · exact List.dropLast_subset _ member
  · exact member

variable {ended : List Text}

theorem lines_flatMap_append (closed : ∀ line ∈ ended, '\n' ∉ line ∧ line.getLast? ≠ some '\r')
    (rest : Text) : lines (ended.flatMap (· ++ ['\n']) ++ rest) = ended ++ lines rest := by
  induction ended with
  | nil => rfl
  | cons line ended ih =>
    obtain ⟨noLf, noCr⟩ := closed line List.mem_cons_self
    have pieces := linePieces_append_lf noLf noCr (ended.flatMap (· ++ ['\n']) ++ rest)
    have later := ih fun other member => closed other (List.mem_cons_of_mem _ member)
    have shape : (line :: ended).flatMap (· ++ ['\n']) ++ rest =
        line ++ '\n' :: (ended.flatMap (· ++ ['\n']) ++ rest) := by simp
    rw [shape, lines_of_linePieces_cons pieces, later, List.cons_append]

theorem lines_of_not_mem {line : Text} (some_text : line ≠ []) (noLf : '\n' ∉ line) :
    lines line = [line] := by
  simp [lines, linePieces_of_not_mem noLf, some_text]

/-- What stands before a line feed is cut into the same pieces whatever follows. -/
theorem exists_linePieces_append (front : Text) :
    ∃ pieces, pieces ≠ [] ∧
      ∀ rest, linePieces (front ++ '\n' :: rest) = pieces ++ linePieces rest := by
  induction front with
  | nil => exact ⟨[[]], by simp, fun rest => linePieces_lf rest⟩
  | cons c front ih =>
    obtain ⟨pieces, some_piece, cut⟩ := ih
    by_cases isLf : c = '\n'
    · subst isLf
      refine ⟨[] :: pieces, by simp, fun rest => ?_⟩
      rw [List.cons_append, linePieces_lf, cut, List.cons_append]
    · by_cases isCrlf : c = '\r' ∧ (front ++ ['\n']).head? = some '\n'
      · -- the CR belongs to the line break behind it
        obtain ⟨rfl, starts⟩ := isCrlf
        refine ⟨pieces, some_piece, fun rest => ?_⟩
        obtain ⟨behind, shape⟩ : ∃ behind, front ++ '\n' :: rest = '\n' :: behind := by
          cases front with
          | nil => exact ⟨rest, rfl⟩
          | cons d front => exact ⟨front ++ '\n' :: rest, by simpa using starts⟩
        rw [List.cons_append, ← cut, shape, linePieces_crlf, linePieces_lf]
      · obtain ⟨first, others, rfl⟩ := List.exists_cons_of_ne_nil some_piece
        refine ⟨(c :: first) :: others, by simp, fun rest => ?_⟩
        rw [List.cons_append, linePieces_cons _ isLf, cut]
        · rfl
        · intro isCr starts
          refine isCrlf ⟨isCr, ?_⟩
          cases front with
          | nil => rfl
          | cons d front => simpa using starts

theorem lines_of_linePieces_append {text rest : Text} {pieces : List Text}
    (cut : linePieces text = pieces ++ linePieces rest) : lines text = pieces ++ lines rest := by
  obtain ⟨last, others, shape⟩ := List.exists_cons_of_ne_nil (linePieces_ne_nil rest)
  simp only [lines, cut, shape, List.getLast?_append_of_ne_nil _ (List.cons_ne_nil last others),
    List.dropLast_append_of_ne_nil (List.cons_ne_nil last others)]
  split <;> rfl

/-- The lines of a text that ends with a line feed stay as they are when more follows. -/
theorem lines_append {front : Text} (ended : front.getLast? = some '\n') (rest : Text) :
    lines (front ++ rest) = front.lines ++ rest.lines := by
  obtain ⟨before, rfl⟩ := List.getLast?_eq_some_iff.1 ended
  obtain ⟨pieces, _, cut⟩ := exists_linePieces_append before
  have whole := lines_of_linePieces_append (cut rest)
  have alone := lines_of_linePieces_append (cut [])
  rw [lines_nil, List.append_nil] at alone
  rw [List.append_assoc, List.singleton_append, whole, alone]

theorem dropWhile_append_eq {holds : Char → Bool} {front rest : Text}
    (within : ∀ c ∈ front, holds c = true) (ends : ∀ c ∈ rest.head?, holds c = false) :
    (front ++ rest).dropWhile holds = rest := by
  rw [List.dropWhile_append_of_pos within]
  cases rest with
  | nil => rfl
  | cons c rest => rw [List.dropWhile_cons_of_neg (by simp [ends c rfl])]

section

variable {text : Text}

theorem trimStart_append (front : Text) (spaces : ∀ c ∈ front, isSpace c = true)
    (first : ∀ c ∈ text.head?, isSpace c = false) : (front ++ text).trimStart = text :=
  dropWhile_append_eq spaces first

theorem trimStart_eq_self (first : ∀ c ∈ text.head?, isSpace c = false) : text.trimStart = text :=
  trimStart_append [] (List.forall_mem_nil _) first

theorem trimStart_subset (text : Text) : text.trimStart ⊆ text :=
  List.dropWhile_subset _

theorem dropEndWhile_eq_self {drops : Char → Bool} (last : ∀ c ∈ text.getLast?, drops c = false) :
    text.dropEndWhile drops = text := by
  obtain rfl | ⟨front, c, rfl⟩ := text.eq_nil_or_concat
  · rfl
  · have stays : drops c = false := last c (by simp)
    simp [dropEndWhile, stays]

theorem trim_append (front : Text) (spaces : ∀ c ∈ front, isSpace c = true)
    (first : ∀ c ∈ text.head?, isSpace c = false) (last : ∀ c ∈ text.getLast?, isSpace c = false) :
    (front ++ text).trim = text := by
  rw [trim, trimStart_append front spaces first, dropEndWhile_eq_self last]

theorem trim_eq_self (first : ∀ c ∈ text.head?, isSpace c = false)
    (last : ∀ c ∈ text.getLast?, isSpace c = false) : text.trim = text :=
  trim_append [] (by simp) first last

theorem not_drops_of_mem_getLast?_dropEndWhile {drops : Char → Bool} {c : Char}
    (last : c ∈ (text.dropEndWhile drops).getLast?) : drops c = false := by
  rw [dropEndWhile, List.getLast?_reverse] at last
  have stops := List.head?_dropWhile_not drops text.reverse
  rw [Option.mem_def.1 last] at stops
  exact stops

theorem mem_of_mem_trim {c : Char} (member : c ∈ text.trim) : c ∈ text := by
  rw [trim, dropEndWhile, List.mem_reverse] at member
  exact trimStart_subset text (List.mem_reverse.1 (List.dropWhile_subset _ member))

theorem not_isSpace_of_mem_getLast?_trim {c : Char} (last : c ∈ text.trim.getLast?) :
    isSpace c = false :=
  not_drops_of_mem_getLast?_dropEndWhile last

theorem not_isSpace_of_mem_head?_trim {c : Char} (first : c ∈ text.trim.head?) :
    isSpace c = false := by
  have begins : text.trim <+: text.trimStart := by
    rw [trim, dropEndWhile, ← List.reverse_suffix, List.reverse_reverse]
    exact List.dropWhile_suffix _
  obtain ⟨behind, whole⟩ := begins
  obtain ⟨others, shape⟩ := List.head?_eq_some_iff.1 first
  have stops := List.head?_dropWhile_not isSpace text
  rw [← trimStart, ← whole, shape] at stops
  exact stops

end

end MakeRules.Text
