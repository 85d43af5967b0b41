import MakeRules.Text.Basic

/-! Letters, the 16-bit units of a text.

A text has one letter for each of its units. A unit that is a character is its own letter. The
surrogates, which are none, have the characters from U+1D800 to U+1DFFF for letters, each the one
whose number is greater by 0x10000. These are never meant as themselves: a character from U+10000
on is two letters, its pair of surrogates. So a text keeps whatever units it is made of, also a
surrogate without its partner, and two texts are one only if all their units are.

Offsets count letters, and keys are ordered by the numbers of their units, which differs from the
order of characters where one from U+10000 on meets one from U+E000 to U+FFFF.
-/

set_option autoImplicit false

namespace MakeRules

/-- Whether a letter can be the first of a pair. -/
def isHighSurrogate (c : Char) : Bool :=
  0x1D800 ≤ c.toNat && c.toNat < 0x1DC00

/-- Whether a letter can be the second of a pair. -/
def isLowSurrogate (c : Char) : Bool :=
  0x1DC00 ≤ c.toNat && c.toNat < 0x1E000

def isSurrogate (c : Char) : Bool :=
  isHighSurrogate c || isLowSurrogate c

/-- The number of a unit. -/
def unitNumber (c : Char) : Nat :=
  if isSurrogate c then c.toNat - 0x10000 else c.toNat

/-- The letter of the unit with a number. -/
def letter (n : Nat) : Char :=
  .ofNat (if 0xD800 ≤ n && n < 0xE000 then n + 0x10000 else n)

theorem letter_unitNumber (c : Char) : letter (unitNumber c) = c := by
  have valid : c.toNat < 0xD800 ∨ 0xDFFF < c.toNat ∧ c.toNat < 0x110000 := c.valid
  have same : (if 0xD800 ≤ unitNumber c && unitNumber c < 0xE000 then unitNumber c + 0x10000
      else unitNumber c) = c.toNat := by
    simp only [unitNumber, isSurrogate, isHighSurrogate, isLowSurrogate, Bool.and_eq_true,
      Bool.or_eq_true, decide_eq_true_eq]
    split <;> split <;> omega
  rw [letter, same, Char.ofNat_toNat]

theorem unitNumber_lt (c : Char) : unitNumber c < UInt32.size := by
  have valid : c.toNat < 0xD800 ∨ 0xDFFF < c.toNat ∧ c.toNat < 0x110000 := c.valid
  have size : UInt32.size = 0x100000000 := rfl
  unfold unitNumber
  split <;> omega

/-- The letters of a character: itself below U+10000, and a pair of surrogates from there on. -/
def letters (c : Char) : Text :=
  if c.toNat < 0x10000 then [c]
  else [letter (0xD800 + (c.toNat - 0x10000) / 0x400),
    letter (0xDC00 + (c.toNat - 0x10000) % 0x400)]

/-- The character that stands for what is no character. -/
def replacement : Char := '\uFFFD'

/-- The character that a pair of surrogates makes up. -/
def pairChar (high low : Char) : Char :=
  .ofNat (0x10000 + (unitNumber high - 0xD800) * 0x400 + (unitNumber low - 0xDC00))

namespace Text

def units (text : Text) : List UInt32 :=
  text.map fun c => .ofNat (unitNumber c)

theorem units_injective {text other : Text} (same : text.units = other.units) : text = other := by
  have again (text : Text) : text.units.map (letter ·.toNat) = text := by
    rw [units, List.map_map]
    conv => rhs; rw [← List.map_id text]
    apply List.map_congr_left
    intro c _
    rw [Function.comp_apply, UInt32.toNat_ofNat_of_lt' (unitNumber_lt c), letter_unitNumber, id]
  rw [← again text, same, again]

def ofChars (chars : List Char) : Text :=
  chars.flatMap letters

def ofString (string : String) : Text :=
  ofChars string.toList

/-- The characters that letters make up. A surrogate without a partner makes up none. -/
def chars : Text → List Char
  | high :: low :: rest =>
    if isHighSurrogate high && isLowSurrogate low then pairChar high low :: chars rest
    else (if isSurrogate high then replacement else high) :: chars (low :: rest)
  | [c] => [if isSurrogate c then replacement else c]
  | [] => []

def string (text : Text) : String :=
  .ofList text.chars

end Text

end MakeRules
