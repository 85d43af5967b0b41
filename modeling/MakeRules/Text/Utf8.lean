import MakeRules.Text.Units

/-! Lossy reading of UTF-8.

Each longest beginning of a character that bytes break off, and each byte that
can begin none, reads as one replacement character. A byte order mark is kept.
-/

set_option autoImplicit false

namespace MakeRules.Utf8

/-- A character of which some bytes are read: how many are missing, the bits so
far, and the range in which the next byte must lie. -/
structure Pending where
  missing : Nat
  bits : Nat
  least : Nat := 0x80
  greatest : Nat := 0xBF
  deriving DecidableEq, Repr

/-- Read a byte with no character pending, if a character can begin with it. -/
def first? (byte : Nat) : Option (Text × Option Pending) :=
  if byte < 0x80 then some ([Char.ofNat byte], none)
  else if 0xC2 ≤ byte && byte < 0xE0 then some ([], some { missing := 1, bits := byte - 0xC0 })
  else if byte == 0xE0 then some ([], some { missing := 2, bits := 0, least := 0xA0 })
  else if byte == 0xED then some ([], some { missing := 2, bits := 0xD, greatest := 0x9F })
  else if 0xE1 ≤ byte && byte < 0xF0 then some ([], some { missing := 2, bits := byte - 0xE0 })
  else if byte == 0xF0 then some ([], some { missing := 3, bits := 0, least := 0x90 })
  else if byte == 0xF4 then some ([], some { missing := 3, bits := 4, greatest := 0x8F })
  else if 0xF1 ≤ byte && byte < 0xF4 then some ([], some { missing := 3, bits := byte - 0xF0 })
  else none

/-- Read a byte that goes on where the bytes before it stopped, if it can: the characters it
settles, letter by letter, and the character it leaves pending. -/
def next? (pending : Option Pending) (byte : Nat) : Option (Text × Option Pending) :=
  match pending with
  | none => first? byte
  | some p =>
    if p.least ≤ byte && byte ≤ p.greatest then
      let bits := p.bits * 64 + (byte - 0x80)
      if p.missing ≤ 1 then some (letters (Char.ofNat bits), none)
      else some ([], some { missing := p.missing - 1, bits })
    else none

/-- Read one byte, whatever it is. -/
def next (pending : Option Pending) (byte : Nat) : Text × Option Pending :=
  match next? pending byte with
  | some read => read
  | none =>
    -- a byte that breaks a character off is read as the first of the next one
    let (text, behind) := (first? byte).getD ([replacement], none)
    if pending.isSome then (replacement :: text, behind) else (text, behind)

def decodeFrom (pending : Option Pending) : List Nat → Text
  | [] => if pending.isSome then [replacement] else []
  | byte :: rest =>
    let (text, pending) := next pending byte
    text ++ decodeFrom pending rest

def decode (bytes : List Nat) : Text :=
  decodeFrom none bytes

end MakeRules.Utf8
