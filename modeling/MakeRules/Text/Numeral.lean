import MakeRules.Text.Basic

/-! Numbers written in decimal and in base 36, and hexadecimal digits. -/

set_option autoImplicit false

namespace MakeRules

/-- The digit characters up to base 36, letters in lower case. -/
def digitChar (digit : Nat) : Char :=
  if digit < 10 then Char.ofNat ('0'.toNat + digit) else Char.ofNat ('a'.toNat + (digit - 10))

/-- The value of a hexadecimal digit in either case. -/
def hexDigit? (c : Char) : Option Nat :=
  if c.isDigit then some (c.toNat - '0'.toNat)
  else if 'a' ≤ c ∧ c ≤ 'f' then some (c.toNat - 'a'.toNat + 10)
  else if 'A' ≤ c ∧ c ≤ 'F' then some (c.toNat - 'A'.toNat + 10)
  else none

namespace Text

def ofNat (n : Nat) : Text :=
  Nat.toDigits 10 n

def base36 (n : Nat) : Text :=
  if n < 36 then [digitChar n] else base36 (n / 36) ++ [digitChar (n % 36)]

/-- A minus sign in front of a negative number, and the digits of its absolute value. -/
def signed (digits : Nat → Text) (n : Int) : Text :=
  if n < 0 then '-' :: digits n.natAbs else digits n.natAbs

def hex4 (n : Nat) : Text :=
  [n / 0x1000, n / 0x100, n / 0x10, n].map fun part => digitChar (part % 0x10)

/-- A natural number in decimal, zeros in front filling it up to a width. -/
def padded (width n : Nat) : Text :=
  List.replicate (width - (ofNat n).length) '0' ++ ofNat n

end Text

end MakeRules
