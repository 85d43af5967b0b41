import MakeRules.Proofs.Escape.Decoding
import Mathlib.Data.List.Chain

/-! What is read back of a path that was written for the shell.

The escaper leaves backslashes bare, so the reader takes each for a guard of the character that
follows it, and drops it. It stays where that character brings a backslash of the escaper with it,
where it ends a line, and at the end of the path. So these paths are read back, and no others.
-/

set_option autoImplicit false

namespace MakeRules.Escape

/-- The characters before which a backslash is kept. The escaper guards the first six with a
backslash of its own, and the others, which end a line, no backslash guards. -/
def keepsSlash : List Char :=
  ['(', ')', '#', '&', '$', ' ', '\n', '\r', '\u2028', '\u2029']

theorem mem_keepsSlash_iff {c : Char} :
    c ∈ keepsSlash ↔ c ∈ shellSpecial ∨ isLineEnd c = true := by
  have separators : c.toNat = 0x2028 ∨ c.toNat = 0x2029 ↔ c = '\u2028' ∨ c = '\u2029' := by
    simp only [← Char.toNat_inj]
    rfl
  have characters : shellSpecial = ['(', ')', '#', '&', '$', ' '] := rfl
  simp only [keepsSlash, characters, isLineEnd, List.mem_cons, List.not_mem_nil, or_false,
    Bool.or_eq_true, beq_iff_eq, or_assoc, separators]

theorem not_isLineEnd_of_special {c : Char} (special : c ∈ shellSpecial) : isLineEnd c = false := by
  have inside : shellSpecial.all (fun c => !isLineEnd c) = true := by decide
  simpa using List.all_eq_true.1 inside c special

theorem ofShell_slash {c : Char} (inside : isLineEnd c = false) (text : Text) :
    ofShell ('\\' :: c :: text) = c :: ofShell text := by
  rw [ofShell, inside]
  rfl

theorem ofShell_slash_of_isLineEnd {c : Char} (ends : isLineEnd c = true) (text : Text) :
    ofShell ('\\' :: c :: text) = '\\' :: c :: ofShell text := by
  rw [ofShell, if_pos ends]

/-- What is read of a path that was written for the shell. -/
def reread : Text → Text
  | '\\' :: c :: rest => if c ∈ keepsSlash then '\\' :: c :: reread rest else c :: reread rest
  | c :: rest => c :: reread rest
  | [] => []

theorem ofShell_shell (path : Text) : ofShell (shell path) = reread path := by
  fun_induction reread path with
  | case1 c rest keeps ih =>
    rw [shell_cons_of_bare (by decide)]
    by_cases special : c ∈ shellSpecial
    · -- the backslash of the path is guarded by that of the escaper
      have slash : c ≠ '\\' := by
        rintro rfl
        exact absurd special (by decide)
      rw [shell_cons_of_special special, ofShell_slash rfl, ofShell_cons slash, ih]
    · have ends := (mem_keepsSlash_iff.1 keeps).resolve_left special
      rw [shell_cons_of_bare special, ofShell_slash_of_isLineEnd ends, ih]
  | case2 c rest loses ih =>
    rw [mem_keepsSlash_iff, not_or, Bool.not_eq_true] at loses
    rw [shell_cons_of_bare (by decide), shell_cons_of_bare loses.1, ofShell_slash loses.2, ih]
  | case3 c rest pair ih =>
    by_cases special : c ∈ shellSpecial
    · rw [shell_cons_of_special special, ofShell_slash (not_isLineEnd_of_special special), ih]
    · rw [shell_cons_of_bare special]
      by_cases slash : c = '\\'
      · cases rest with
        | nil => rw [slash]; rfl
        | cons d rest => exact absurd rfl (pair d rest slash)
      · rw [ofShell_cons slash, ih]
  | case4 => rfl

theorem length_reread_le (path : Text) : (reread path).length ≤ path.length := by
  fun_induction reread path <;> simp only [List.length_cons, Nat.le_refl] <;> omega

/-- Once a backslash is lost, what is read stays too short. -/
theorem reread_eq_self_iff (path : Text) :
    reread path = path ↔ path.IsChain fun c next => c = '\\' → next ∈ keepsSlash := by
  fun_induction reread path with
  | case1 c rest keeps ih =>
    have slash : c ≠ '\\' := by
      rintro rfl
      exact absurd keeps (by decide)
    simp [List.isChain_cons, keeps, slash, ih]
  | case2 c rest loses ih =>
    refine iff_of_false (fun same => ?_) fun chain => ?_
    · have short := length_reread_le rest
      have lengths := congrArg List.length same
      simp only [List.length_cons] at lengths
      omega
    · exact loses ((List.isChain_cons_cons.1 chain).1 rfl)
  | case3 c rest pair ih =>
    have starts : ∀ next ∈ rest.head?, c = '\\' → next ∈ keepsSlash := by
      intro next first slash
      obtain ⟨others, rfl⟩ := List.head?_eq_some_iff.1 first
      exact absurd rfl (pair next others slash)
    rw [List.isChain_cons, and_iff_right starts, ← ih, List.cons.injEq, and_iff_right rfl]
  | case4 => simp

/-- A path is read back from its shell word if and only if each of its backslashes ends it, or stands
directly before a character that the escaper guards or that ends a line. -/
theorem ofShell_shell_eq_iff (path : Text) :
    ofShell (shell path) = path ↔ path.IsChain fun c next => c = '\\' → next ∈ keepsSlash := by
  rw [ofShell_shell, reread_eq_self_iff]

-- of two backslashes the first is lost, though the second stands before a dollar
example : ofShell (shell "\\\\$".toList) = "\\$".toList := by decide

end MakeRules.Escape
