import MakeRules.Escape
import MakeRules.Rule.Basic
import Mathlib.Data.List.Basic

/-! What the escapers write is read back.

A target names the path that it was written from, so two paths never share one.
A path shown with backslashes before all characters but the plain ones is the
form in which a log shows it.
-/

set_option autoImplicit false

namespace MakeRules.Escape

theorem targetChar_of_ne {c : Char} (dollar : c ≠ '$') (guarded : ¬(c = '&' ∨ c = ' ')) :
    targetChar c = [c] := by
  rw [targetChar, if_neg dollar, if_neg guarded]

theorem head?_makeTarget (path : Text) :
    (makeTarget path).head? ≠ some '&' ∧ (makeTarget path).head? ≠ some ' ' := by
  cases path with
  | nil => exact ⟨nofun, nofun⟩
  | cons c path =>
    rw [makeTarget_cons, targetChar]
    split
    · simp
    · split
      · simp
      · next others => simpa [not_or] using others

/-- A backslash in the path is not taken for a guard, as what it seems to guard is guarded
by another. -/
theorem ofMakeTarget_cons {c : Char} (dollar : c ≠ '$') (path : Text) :
    ofMakeTarget (c :: makeTarget path) = c :: ofMakeTarget (makeTarget path) := by
  obtain ⟨ampersand, space⟩ := head?_makeTarget path
  conv_lhs => unfold ofMakeTarget
  split <;> simp_all

theorem ofMakeTarget_makeTarget (path : Text) : ofMakeTarget (makeTarget path) = path := by
  induction path with
  | nil => rfl
  | cons c path ih =>
    by_cases dollar : c = '$'
    · subst dollar
      simp [targetChar, ofMakeTarget, ih]
    · by_cases guarded : c = '&' ∨ c = ' '
      · rcases guarded with rfl | rfl <;> simp [targetChar, ofMakeTarget, ih]
      · rw [makeTarget_cons, targetChar_of_ne dollar guarded, List.singleton_append,
          ofMakeTarget_cons dollar, ih]

theorem makeTarget_injective : Function.Injective makeTarget := by
  intro left right same
  rw [← ofMakeTarget_makeTarget left, same, ofMakeTarget_makeTarget]

theorem makeTarget_beq_makeTarget (first second : Text) :
    (makeTarget first == makeTarget second) = (first == second) := by
  rw [Bool.eq_iff_iff, beq_iff_eq, beq_iff_eq, makeTarget_injective.eq_iff]

theorem getLast?_makeTarget (path : Text) : (makeTarget path).getLast? = path.getLast? := by
  obtain rfl | ⟨front, c, rfl⟩ := path.eq_nil_or_concat
  · rfl
  · have last : (targetChar c).getLast? = some c := by
      unfold targetChar
      split
      · next dollar => rw [dollar]; rfl
      · split <;> rfl
    simp [makeTarget, List.getLast?_append, last]

theorem isObjectFile_append_o (front : Text) :
    isObjectFile (front ++ ['o']) = true ↔ front.getLast? = some '.' := by
  rw [isObjectFile, List.isSuffixOf_iff_suffix, List.getLast?_eq_some_iff]
  constructor
  · rintro ⟨before, whole⟩
    have shape : (before ++ ['.']) ++ ['o'] = front ++ ['o'] := by
      rw [List.append_assoc]
      exact whole
    exact ⟨before, (List.append_cancel_right shape).symm⟩
  · rintro ⟨before, rfl⟩
    exact ⟨before, by simp [objectSuffix]⟩

theorem getLast?_of_isObjectFile {path : Text} (object : isObjectFile path = true) :
    path.getLast? = some 'o' := by
  obtain ⟨front, rfl⟩ := List.isSuffixOf_iff_suffix.1 object
  simp [objectSuffix]

/-- A path is that of an object just if its target ends like one. -/
theorem isObjectFile_makeTarget (path : Text) :
    isObjectFile (makeTarget path) = isObjectFile path := by
  rw [Bool.eq_iff_iff]
  by_cases last : path.getLast? = some 'o'
  · obtain ⟨front, rfl⟩ := List.getLast?_eq_some_iff.1 last
    have whole : makeTarget (front ++ ['o']) = makeTarget front ++ ['o'] := List.flatMap_append
    rw [whole, isObjectFile_append_o, isObjectFile_append_o, getLast?_makeTarget]
  · refine iff_of_false (fun object => last ?_) fun object => last (getLast?_of_isObjectFile object)
    rw [← getLast?_makeTarget]
    exact getLast?_of_isObjectFile object

section

variable {c : Char}

/-- The escapers add nothing but backslashes and further dollars. -/
theorem mem_makeTarget_iff (other : c ≠ '\\') {path : Text} : c ∈ makeTarget path ↔ c ∈ path := by
  have own : ∀ d, c ∈ targetChar d ↔ c = d := by
    intro d
    unfold targetChar
    split <;> [skip; split] <;> simp_all
  simp only [makeTarget, List.mem_flatMap, own, exists_eq_right']

theorem mem_shell_iff (other : c ≠ '\\') {path : Text} : c ∈ shell path ↔ c ∈ path := by
  have own : ∀ d, c ∈ shellChar d ↔ c = d := by
    intro d
    unfold shellChar
    split <;> simp [other]
  simp only [shell, List.mem_flatMap, own, exists_eq_right']

theorem mem_dollar_iff {command : Text} : c ∈ dollar command ↔ c ∈ command := by
  have own : ∀ d, c ∈ dollarChar d ↔ c = d := by
    intro d
    unfold dollarChar
    split <;> simp_all
  simp only [dollar, List.mem_flatMap, own, exists_eq_right']

end

theorem shell_cons_of_special {c : Char} (special : c ∈ shellSpecial) (path : Text) :
    shell (c :: path) = '\\' :: c :: shell path := by
  rw [shell_cons, shellChar, if_pos special]
  rfl

theorem shell_cons_of_bare {c : Char} (bare : c ∉ shellSpecial) (path : Text) :
    shell (c :: path) = c :: shell path := by
  rw [shell_cons, shellChar, if_neg bare]
  rfl

theorem ofShell_subset (text : Text) : ofShell text ⊆ text := by
  fun_induction ofShell text with
  | case1 => exact List.Subset.refl _
  | case2 c rest _ ih => exact List.cons_subset_cons _ (List.cons_subset_cons c ih)
  | case3 c rest _ ih => exact List.subset_cons_of_subset _ (List.cons_subset_cons c ih)
  | case4 c rest _ ih => exact List.cons_subset_cons c ih

/-- The characters that a log shows without a guard. -/
def isPlain (c : Char) : Bool :=
  c.isAlphanum || c ∈ ['/', '.', '_', '-']

/-- How a log shows a character of a path. -/
def guardedChar (c : Char) : Text :=
  if isPlain c then [c] else ['\\', c]

/-- How a log shows a path. -/
def guarded (path : Text) : Text :=
  path.flatMap guardedChar

@[simp] theorem guarded_nil : guarded [] = [] := rfl

@[simp] theorem guarded_cons (c : Char) (path : Text) :
    guarded (c :: path) = guardedChar c ++ guarded path := rfl

theorem guarded_ne_nil {path : Text} (some_text : path ≠ []) : guarded path ≠ [] := by
  cases path with
  | nil => exact absurd rfl some_text
  | cons c path =>
    rw [guarded_cons, guardedChar]
    split <;> simp

theorem mem_guarded {c : Char} {path : Text} (member : c ∈ guarded path) :
    c = '\\' ∨ c ∈ path := by
  obtain ⟨shown, inside, member⟩ := List.mem_flatMap.1 member
  rw [guardedChar] at member
  split at member
  · exact .inr (List.mem_singleton.1 member ▸ inside)
  · rcases List.mem_cons.1 member with slash | same
    · exact .inl slash
    · exact .inr (List.mem_singleton.1 same ▸ inside)

/-- A guarded path begins with a backslash or a plain character. -/
theorem head?_guarded {c : Char} {path : Text} (first : c ∈ (guarded path).head?) :
    c = '\\' ∨ isPlain c = true := by
  cases path with
  | nil => simp at first
  | cons d path =>
    rw [guarded_cons, guardedChar] at first
    split at first
    · next plain =>
      obtain rfl : d = c := by simpa using first
      exact .inr plain
    · exact .inl (by simpa using first.symm)

theorem getLast?_guarded (path : Text) : (guarded path).getLast? = path.getLast? := by
  obtain rfl | ⟨front, c, rfl⟩ := path.eq_nil_or_concat
  · rfl
  · have last : (guardedChar c).getLast? = some c := by
      rw [guardedChar]
      split <;> rfl
    simp [guarded, List.getLast?_append, last]

theorem ofShell_cons {c : Char} (bare : c ≠ '\\') (text : Text) :
    ofShell (c :: text) = c :: ofShell text := by
  conv_lhs => unfold ofShell
  split <;> simp_all

theorem ofShell_guarded {path : Text} (oneLine : ∀ c ∈ path, isLineEnd c = false) :
    ofShell (guarded path) = path := by
  induction path with
  | nil => rfl
  | cons c path ih =>
    have later := ih fun d member => oneLine d (List.mem_cons_of_mem _ member)
    by_cases plain : isPlain c = true
    · have bare : c ≠ '\\' := by
        rintro rfl
        cases plain
      rw [guarded_cons, guardedChar, if_pos plain, List.singleton_append, ofShell_cons bare, later]
    · rw [guarded_cons, guardedChar, if_neg plain, List.cons_append, List.singleton_append, ofShell,
        oneLine c List.mem_cons_self, later]
      rfl

end MakeRules.Escape
