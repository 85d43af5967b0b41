import MakeRules.Makefile
import MakeRules.Proofs.Step.Markers
import MakeRules.Proofs.Text.Lines
import MakeRules.Proofs.Text.Units

/-! The invocation that is read back from a makefile.

Whatever the texts of a header hold, they are written on one line each, so the invocation
is where it is looked for, and nothing before it can be taken for it.
-/

set_option autoImplicit false

namespace MakeRules

namespace Text

/-- A text with a space for each LF and each CRLF. -/
def folded : Text → Text
  | '\r' :: '\n' :: rest => ' ' :: folded rest
  | '\n' :: rest => ' ' :: folded rest
  | c :: rest => c :: folded rest
  | [] => []

theorem oneLine_of_linePieces_break {text rest : Text}
    (pieces : linePieces text = [] :: linePieces rest) : text.oneLine = ' ' :: rest.oneLine := by
  obtain ⟨first, others, shape⟩ := List.exists_cons_of_ne_nil (linePieces_ne_nil rest)
  simp [oneLine, pieces, shape, List.intercalate]

theorem oneLine_of_linePieces_consHead {c : Char} {text rest : Text}
    (pieces : linePieces text = consHead c (linePieces rest)) : text.oneLine = c :: rest.oneLine := by
  obtain ⟨first, others, shape⟩ := List.exists_cons_of_ne_nil (linePieces_ne_nil rest)
  cases others <;> simp [oneLine, pieces, shape, consHead, List.intercalate]

theorem oneLine_eq_folded (text : Text) : text.oneLine = text.folded := by
  fun_induction folded text with
  | case1 rest ih => rw [oneLine_of_linePieces_break (linePieces_crlf rest), ih]
  | case2 rest ih => rw [oneLine_of_linePieces_break (linePieces_lf rest), ih]
  | case3 c rest notCrlf notLf ih =>
    have pieces : linePieces (c :: rest) = consHead c (linePieces rest) := by
      -- a CR here has no LF behind it, or it would be a line break
      refine linePieces_cons rest notLf fun isCr starts => ?_
      obtain ⟨behind, shape⟩ := List.head?_eq_some_iff.1 starts
      exact notCrlf behind isCr shape
    rw [oneLine_of_linePieces_consHead pieces, ih]
  | case4 => rfl

theorem lf_not_mem_folded (text : Text) : '\n' ∉ text.folded := by
  fun_induction folded text with
  | case1 rest ih => simpa using ih
  | case2 rest ih => simpa using ih
  | case3 c rest _ notLf ih =>
    rw [List.mem_cons, not_or]
    exact ⟨fun isLf => notLf isLf.symm, ih⟩
  | case4 => simp

end Text

namespace Makefile

theorem splitOn_header {captured invocation : Text} (capturedLine : '\n' ∉ captured)
    (invocationLine : '\n' ∉ invocation) (rest : Text) :
    Text.splitOn '\n' (title ++ '\n' :: (capturedPrefix ++ captured ++ '\n' ::
      (invocationPrefix ++ invocation ++ '\n' :: rest))) =
        title :: (capturedPrefix ++ captured) :: (invocationPrefix ++ invocation) ::
          Text.splitOn '\n' rest := by
  have first : '\n' ∉ title := by decide
  have second : '\n' ∉ capturedPrefix ++ captured := by
    rw [List.mem_append, not_or]
    exact ⟨by decide, capturedLine⟩
  have third : '\n' ∉ invocationPrefix ++ invocation := by
    rw [List.mem_append, not_or]
    exact ⟨by decide, invocationLine⟩
  rw [Text.splitOn_append first, Text.splitOn_append second, Text.splitOn_append third]

variable (makefile : Makefile) (rest invocation : Text)

theorem exists_render_append_eq : ∃ behind, makefile.render ++ rest =
    title ++ '\n' :: (capturedPrefix ++ makefile.header.capturedAt.folded ++ '\n' ::
      (invocationPrefix ++ makefile.header.invocation.folded ++ '\n' ::
        (goalPrefix ++ makefile.aggregate.target ++ '\n' :: behind))) := by
  simp only [render, lines, headerLines, Text.oneLine_eq_folded, List.cons_append,
    List.flatMap_cons, List.append_assoc, List.nil_append]
  exact ⟨_, rfl⟩

end Makefile

end MakeRules
