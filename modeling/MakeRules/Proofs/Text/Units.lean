import MakeRules.Text.Units

/-! Texts and the characters that they are made from.

Each unit has a letter of its own, and characters are given back by their letters, so nothing is
lost of a text that is read, and nothing of one that is written unless it has a surrogate without
a partner.
-/

set_option autoImplicit false

namespace MakeRules

theorem toNat_ofNat {n : Nat} (valid : n.isValidChar) : (Char.ofNat n).toNat = n := by
  rw [Char.ofNat, dif_pos valid]
  rfl

theorem toNat_letter {n : Nat} (small : n < 0x10000) :
    (letter n).toNat = if 0xD800 ≤ n && n < 0xE000 then n + 0x10000 else n := by
  apply toNat_ofNat
  simp only [Nat.isValidChar, Bool.and_eq_true, decide_eq_true_eq]
  split <;> omega

theorem unitNumber_letter {n : Nat} (small : n < 0x10000) : unitNumber (letter n) = n := by
  simp only [unitNumber, isSurrogate, isHighSurrogate, isLowSurrogate, toNat_letter small,
    Bool.or_eq_true, Bool.and_eq_true, decide_eq_true_eq]
  split <;> split <;> omega

theorem isHighSurrogate_letter {n : Nat} (least : 0xD800 ≤ n) (greatest : n < 0xDC00) :
    isHighSurrogate (letter n) = true := by
  rw [isHighSurrogate, toNat_letter (by omega), if_pos (by simp; omega)]
  simp
  omega

theorem isLowSurrogate_letter {n : Nat} (least : 0xDC00 ≤ n) (greatest : n < 0xE000) :
    isLowSurrogate (letter n) = true := by
  rw [isLowSurrogate, toNat_letter (by omega), if_pos (by simp; omega)]
  simp
  omega

/-- A character below U+10000 is no surrogate as a letter. -/
theorem isSurrogate_of_lt {c : Char} (short : c.toNat < 0x10000) : isSurrogate c = false := by
  simp only [isSurrogate, isHighSurrogate, isLowSurrogate, Bool.or_eq_false_iff,
    Bool.and_eq_false_iff, decide_eq_false_iff_not]
  omega

theorem unitNumber_lt_of_isSurrogate {c : Char} (isHalf : isSurrogate c = true) :
    unitNumber c < 0x10000 := by
  rw [unitNumber, if_pos isHalf]
  simp only [isSurrogate, isHighSurrogate, isLowSurrogate, Bool.or_eq_true, Bool.and_eq_true,
    decide_eq_true_eq] at isHalf
  omega

theorem unitNumber_le_toNat (c : Char) : unitNumber c ≤ c.toNat := by
  unfold unitNumber
  split <;> omega

namespace Text

theorem chars_cons_of_not_isSurrogate {c : Char} (alone : isSurrogate c = false) (rest : Text) :
    chars (c :: rest) = c :: chars rest := by
  have notHigh : isHighSurrogate c = false := (Bool.or_eq_false_iff.1 alone).1
  cases rest <;> simp [chars, alone, notHigh]

/-- The letters of a character make up that character, whatever follows. -/
theorem chars_letters_append (c : Char) (rest : Text) :
    chars (letters c ++ rest) = c :: chars rest := by
  unfold letters
  split
  · next short => exact chars_cons_of_not_isSurrogate (isSurrogate_of_lt short) rest
  · next long =>
    have valid : c.toNat < 0xD800 ∨ 0xDFFF < c.toNat ∧ c.toNat < 0x110000 := c.valid
    have high := isHighSurrogate_letter (n := 0xD800 + (c.toNat - 0x10000) / 0x400)
      (by omega) (by omega)
    have low := isLowSurrogate_letter (n := 0xDC00 + (c.toNat - 0x10000) % 0x400)
      (by omega) (by omega)
    rw [List.cons_append, List.cons_append, List.nil_append, chars, high, low, Bool.and_self,
      if_pos rfl, pairChar, unitNumber_letter (by omega), unitNumber_letter (by omega)]
    -- the quotient and the remainder make up the number again
    rw [show 0x10000 + (0xD800 + (c.toNat - 0x10000) / 0x400 - 0xD800) * 0x400 +
      (0xDC00 + (c.toNat - 0x10000) % 0x400 - 0xDC00) = c.toNat by omega, Char.ofNat_toNat]

theorem chars_ofChars (chars : List Char) : (ofChars chars).chars = chars := by
  induction chars with
  | nil => rfl
  | cons c rest ih => rw [ofChars, List.flatMap_cons, chars_letters_append, ← ofChars, ih]

/-- A string that is read as a text is written as it was. -/
theorem string_ofString (string : String) : (ofString string).string = string := by
  rw [Text.string, ofString, chars_ofChars, String.ofList_toList]

theorem chars_eq_nil_iff {text : Text} : text.chars = [] ↔ text = [] := by
  fun_cases chars text <;> simp_all

end Text

end MakeRules
