import MakeRules.Text.Numeral

/-! Random identifiers as text: 32 hexadecimal digits in five groups. -/

set_option autoImplicit false

namespace MakeRules.Uuid

/-- The bytes with the marks of a random identifier: version 4 and the standard variant. -/
def mark (bytes : List Nat) : List Nat :=
  bytes.mapIdx fun index byte =>
    if index = 6 then byte % 0x10 + 0x40 else if index = 8 then byte % 0x40 + 0x80 else byte

def hexByte (byte : Nat) : Text :=
  [digitChar (byte / 16 % 16), digitChar (byte % 16)]

/-- The text of sixteen bytes; a dash stands before the fifth, seventh, ninth and eleventh. -/
def text (bytes : List Nat) : Text :=
  (mark bytes).zipIdx.flatMap fun (byte, index) =>
    if index ∈ [4, 6, 8, 10] then '-' :: hexByte byte else hexByte byte

end MakeRules.Uuid
