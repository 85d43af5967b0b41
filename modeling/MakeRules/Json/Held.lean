import MakeRules.Json.Parser
import MakeRules.Number.Binary64

/-! A value as memory holds it: numbers of binary precision, and in an object the keys that
are indexes first, in ascending order. -/

set_option autoImplicit false

namespace MakeRules.Json

/-- The index that a key is: a natural number below the greatest of 32 bits, written without
leading zeros. -/
def index? (key : Text) : Option Nat :=
  if key.all Char.isDigit then
    let n := ofDigits key
    if Text.ofNat n = key ∧ n < Nat.pow 2 32 - 1 then some n else none
  else none

/-- The members of an object, those whose keys are indexes first. -/
def indexesFirst (members : List (Text × Json)) : List (Text × Json) :=
  let indexed := members.filter fun (key, _) => (index? key).isSome
  let named := members.filter fun (key, _) => (index? key).isNone
  (indexed.mergeSort fun left right =>
    (index? left.1).getD 0 ≤ (index? right.1).getD 0) ++ named

mutual

def held : Json → Json
  | .num n => .num n.rounded
  | .arr items => .arr (heldItems items)
  | .obj members => .obj (indexesFirst (heldMembers members))
  | value => value

def heldItems : List Json → List Json
  | [] => []
  | item :: rest => held item :: heldItems rest

def heldMembers : List (Text × Json) → List (Text × Json)
  | [] => []
  | (key, value) :: rest => (key, held value) :: heldMembers rest

end

end MakeRules.Json
