import MakeRules.Proofs.Text.Lines

/-! Which lines a text has, said of the text as it is written.

Each line is ended by LF or CRLF, but the last one need not be. So a CR alone belongs to its line,
and a line break at the end of a text adds no line to those that it ends.
-/

set_option autoImplicit false

namespace MakeRules.Text

/-- A text is its lines with a line break behind each of them, or behind each but the last. -/
inductive HasLines : Text → List Text → Prop where
  | nil : HasLines [] []
  | last {line : Text} (some_text : line ≠ []) (noLf : '\n' ∉ line) : HasLines line [line]
  | lf {line rest : Text} {lines : List Text} (noLf : '\n' ∉ line)
      (noCr : line.getLast? ≠ some '\r') (later : HasLines rest lines) :
      HasLines (line ++ '\n' :: rest) (line :: lines)
  | crlf {line rest : Text} {lines : List Text} (noLf : '\n' ∉ line) (later : HasLines rest lines) :
      HasLines (line ++ '\r' :: '\n' :: rest) (line :: lines)

section

variable {c : Char} {text : Text} {lines : List Text}

theorem lines_cons (notLf : c ≠ '\n') (notCrlf : c = '\r' → text.head? ≠ some '\n') :
    Text.lines (c :: text) = consHead c text.lines := by
  obtain ⟨first, others, shape⟩ := List.exists_cons_of_ne_nil (linePieces_ne_nil text)
  simp only [Text.lines, linePieces_cons text notLf notCrlf, shape, consHead]
  cases others with
  | nil =>
    -- the piece may have been empty, and so no line, before
    by_cases empty : first = []
    · simp [empty]
    · simp [empty]
  | cons second others =>
    simp only [List.getLast?_cons_cons, List.dropLast_cons_cons]
    split <;> rfl

theorem HasLines.cons (has : text.HasLines lines) (notLf : c ≠ '\n')
    (notCrlf : c = '\r' → text.head? ≠ some '\n') : HasLines (c :: text) (consHead c lines) := by
  have front {line : Text} (noLf : '\n' ∉ line) : '\n' ∉ c :: line :=
    fun found => (List.mem_cons.1 found).elim (Ne.symm notLf) noLf
  cases has with
  | nil => exact .last (List.cons_ne_nil c []) (front List.not_mem_nil)
  | last some_text noLf => exact .last (List.cons_ne_nil c text) (front noLf)
  | @lf line rest lines noLf noCr later =>
    refine @HasLines.lf (c :: line) rest lines (front noLf) ?_ later
    cases line with
    | nil =>
      intro isCr
      exact notCrlf (Option.some.inj isCr) rfl
    | cons d line => rwa [List.getLast?_cons_cons]
  | @crlf line rest lines noLf later => exact @HasLines.crlf (c :: line) rest lines (front noLf) later

theorem hasLines_lines (text : Text) : text.HasLines text.lines := by
  induction count : text.length using Nat.strongRecOn generalizing text with
  | _ count ih =>
    cases text with
    | nil => exact .nil
    | cons c rest =>
      rw [List.length_cons] at count
      by_cases isLf : c = '\n'
      · subst isLf
        rw [lines_lf]
        exact @HasLines.lf [] rest _ List.not_mem_nil (by simp) (ih _ (by omega) rest rfl)
      · by_cases isCrlf : c = '\r' ∧ rest.head? = some '\n'
        · obtain ⟨rfl, starts⟩ := isCrlf
          obtain ⟨later, rfl⟩ := List.head?_eq_some_iff.1 starts
          rw [List.length_cons] at count
          rw [lines_crlf]
          exact @HasLines.crlf [] later _ List.not_mem_nil (ih _ (by omega) later rfl)
        · have notCrlf : c = '\r' → rest.head? ≠ some '\n' := fun isCr starts =>
            isCrlf ⟨isCr, starts⟩
          rw [lines_cons isLf notCrlf]
          exact (ih _ (by omega) rest rfl).cons isLf notCrlf

theorem linePieces_append_crlf {line : Text} (noLf : '\n' ∉ line) (rest : Text) :
    linePieces (line ++ '\r' :: '\n' :: rest) = line :: linePieces rest := by
  induction line with
  | nil => rfl
  | cons c line ih =>
    obtain ⟨different, noLf⟩ := not_or.1 fun found => noLf (List.mem_cons.2 found)
    rw [List.cons_append, linePieces_cons _ (Ne.symm different), ih noLf]
    · rfl
    · intro _ starts
      cases line with
      | nil => cases starts
      | cons d line => exact noLf (List.mem_cons.2 (.inl (Option.some.inj starts).symm))

theorem HasLines.lines_eq (has : text.HasLines lines) : text.lines = lines := by
  induction has with
  | nil => rfl
  | last some_text noLf => exact lines_of_not_mem some_text noLf
  | lf noLf noCr _ ih => rw [lines_of_linePieces_cons (linePieces_append_lf noLf noCr _), ih]
  | crlf noLf _ ih => rw [lines_of_linePieces_cons (linePieces_append_crlf noLf _), ih]

/-- A text has its lines in one way only. -/
theorem hasLines_iff : text.HasLines lines ↔ text.lines = lines :=
  ⟨HasLines.lines_eq, fun same => same ▸ hasLines_lines text⟩

theorem getLast?_append_lf_all (line rest : Text) :
    (line ++ '\n' :: rest).getLast?.all (· == '\n') = rest.getLast?.all (· == '\n') := by
  rw [List.getLast?_append_of_ne_nil _ (List.cons_ne_nil _ _)]
  cases rest with
  | nil => rfl
  | cons c rest => rw [List.getLast?_cons_cons]

/-- A text has as many lines as line feeds, and one more where it goes on behind the last of them. -/
theorem HasLines.length_eq (has : text.HasLines lines) :
    lines.length = text.count '\n' + if text.getLast?.all (· == '\n') then 0 else 1 := by
  induction has with
  | nil => rfl
  | @last line some_text noLf =>
    have ends : line.getLast?.all (· == '\n') = false := by
      rw [List.getLast?_eq_some_getLast some_text, Option.all_some, beq_eq_false_iff_ne]
      intro isLf
      exact noLf (isLf ▸ List.getLast_mem some_text)
    rw [List.count_eq_zero.2 noLf, ends]
    rfl
  | @lf line rest lines noLf _ _ ih =>
    rw [List.count_append, List.count_eq_zero.2 noLf, List.count_cons_self,
      getLast?_append_lf_all, List.length_cons, ih]
    omega
  | @crlf line rest lines noLf _ ih =>
    have shape : line ++ '\r' :: '\n' :: rest = (line ++ ['\r']) ++ '\n' :: rest := by simp
    have noLf : '\n' ∉ line ++ ['\r'] := by simp [noLf]
    rw [shape, List.count_append, List.count_eq_zero.2 noLf, List.count_cons_self,
      getLast?_append_lf_all, List.length_cons, ih]
    omega

end

end MakeRules.Text
