import MakeRules.Json.Parser
import MakeRules.Json.Printer
import MakeRules.Proofs.Text.Units

/-! Strings of JSON, read back as they were written.

Whatever text a string holds, the reader finds it again and what stands behind the string, and no
string is written on two lines. Surrogates without partners are read back as well, as they are
escaped.
-/

set_option autoImplicit false

namespace MakeRules

namespace Json

theorem hexDigit?_digitChar : ∀ digit < 16, hexDigit? (digitChar digit) = some digit := by
  decide

theorem ofHexDigits?_hex4 {n : Nat} (small : n < 0x10000) :
    ofHexDigits? (Text.hex4 n) = some n := by
  have digit (part : Nat) : hexDigit? (digitChar (part % 16)) = some (part % 16) :=
    hexDigit?_digitChar _ (Nat.mod_lt _ (by decide))
  simp only [ofHexDigits?, Text.hex4, List.map_cons, List.map_nil, List.foldlM_cons,
    List.foldlM_nil, digit, Option.map_some, Option.bind_eq_bind, Option.bind_some, pure,
    Option.some.injEq]
  omega

theorem lf_not_mem_hex4 (n : Nat) : '\n' ∉ Text.hex4 n := by
  have digit : ∀ digit < 16, digitChar digit ≠ '\n' := by decide
  simp only [Text.hex4, List.mem_map, not_exists, not_and]
  exact fun part _ => digit _ (Nat.mod_lt _ (by decide))

/-- What a reader of strings makes of a text in front of what it goes on to read. -/
def behindText (text rest : Text) : Option (Text × Text) :=
  (stringBody rest).map fun (more, behind) => (text ++ more, behind)

theorem stringBody_hex4 {n : Nat} (small : n < 0x10000) (rest : Text) :
    stringBody ('\\' :: 'u' :: (Text.hex4 n ++ rest)) = behindText [letter n] rest := by
  have value := ofHexDigits?_hex4 small
  simp only [Text.hex4, List.map_cons, List.map_nil] at value ⊢
  simp only [List.cons_append, List.nil_append, stringBody, value, behindText]
  cases stringBody rest <;> rfl

theorem stringBody_simpleEscape {name c : Char} (escapes : simpleEscape? name = some c)
    (rest : Text) : stringBody ('\\' :: name :: rest) = behindText [c] rest := by
  have different : name ≠ 'u' := by
    rintro rfl
    cases escapes
  rw [stringBody, escapes, behindText]
  · cases stringBody rest <;> rfl
  · exact fun _ _ _ _ _ isLetter => absurd isLetter different

/-- A letter that needs no escape stands for itself. -/
theorem stringBody_cons {c : Char} (notQuote : c ≠ '"') (notBackslash : c ≠ '\\')
    (large : ¬c.toNat < 0x20) (rest : Text) : stringBody (c :: rest) = behindText [c] rest := by
  rw [stringBody, if_neg large, behindText]
  · cases stringBody rest <;> rfl
  · exact notQuote
  · exact fun _ _ _ _ _ isBackslash => absurd isBackslash notBackslash
  · exact fun _ _ isBackslash => absurd isBackslash notBackslash

theorem stringBody_escapeChar (c : Char) (rest : Text) :
    stringBody (escapeChar c ++ rest) = behindText [c] rest := by
  unfold escapeChar
  split
  case h_8 notQuote notBackslash _ _ _ _ _ =>
    split
    · next needed =>
      have small : unitNumber c < 0x10000 := by
        rcases Bool.or_eq_true_iff.1 needed with control | isHalf
        · have := unitNumber_le_toNat c
          have := of_decide_eq_true control
          omega
        · exact unitNumber_lt_of_isSurrogate isHalf
      have read := stringBody_hex4 small rest
      rwa [letter_unitNumber] at read
    · next plain =>
      rw [Bool.or_eq_true_iff, not_or, decide_eq_true_eq] at plain
      exact stringBody_cons notQuote notBackslash plain.1 rest
  all_goals exact stringBody_simpleEscape rfl rest

/-- A surrogate is none of the characters that are escaped by name. -/
theorem stringBody_cons_of_isSurrogate {c : Char} (isHalf : isSurrogate c = true) (rest : Text) :
    stringBody (c :: rest) = behindText [c] rest := by
  apply stringBody_cons
  · rintro rfl
    cases isHalf
  · rintro rfl
    cases isHalf
  · simp only [isSurrogate, isHighSurrogate, isLowSurrogate, Bool.or_eq_true, Bool.and_eq_true,
      decide_eq_true_eq] at isHalf
    omega

/-- The reader finds the text of a string, and what stands behind its closing quote. -/
theorem stringBody_escaped_append (text rest : Text) :
    stringBody (escaped text ++ '"' :: rest) = some (text, rest) := by
  fun_induction escaped text with
  | case1 high low text isPair ih =>
    rw [Bool.and_eq_true] at isPair
    have first : isSurrogate high = true := by rw [isSurrogate, isPair.1, Bool.true_or]
    have second : isSurrogate low = true := by rw [isSurrogate, isPair.2, Bool.or_true]
    rw [List.cons_append, List.cons_append, stringBody_cons_of_isSurrogate first, behindText,
      stringBody_cons_of_isSurrogate second, behindText, ih]
    rfl
  | case2 high low text _ ih =>
    rw [List.append_assoc, stringBody_escapeChar, behindText, ih]
    rfl
  | case3 c => exact stringBody_escapeChar c ('"' :: rest)
  | case4 => rfl

theorem stringBody_quoted (text rest : Text) :
    ∃ body, quoted text ++ rest = '"' :: body ∧ stringBody body = some (text, rest) :=
  ⟨escaped text ++ '"' :: rest, by simp [quoted], stringBody_escaped_append text rest⟩

theorem lf_not_mem_escapeChar (c : Char) : '\n' ∉ escapeChar c := by
  unfold escapeChar
  split
  case h_8 _ _ _ _ notLf _ _ =>
    split
    · simpa using lf_not_mem_hex4 (unitNumber c)
    · simpa using fun isLf => notLf isLf.symm
  all_goals decide

theorem lf_not_mem_escaped (text : Text) : '\n' ∉ escaped text := by
  fun_induction escaped text with
  | case1 high low text isPair ih =>
    rw [Bool.and_eq_true] at isPair
    simp only [List.mem_cons, not_or]
    refine ⟨?_, ?_, ih⟩
    · rintro rfl
      cases isPair.1
    · rintro rfl
      cases isPair.2
  | case2 high low text _ ih => simpa using ⟨lf_not_mem_escapeChar high, ih⟩
  | case3 c => exact lf_not_mem_escapeChar c
  | case4 => exact List.not_mem_nil

theorem lf_not_mem_quoted (text : Text) : '\n' ∉ quoted text := by
  simpa [quoted] using lf_not_mem_escaped text

end Json

end MakeRules
