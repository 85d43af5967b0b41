/-! Exact decimal numbers. -/

set_option autoImplicit false

namespace MakeRules

/-- The number `significand * 10 ^ exponent`. -/
structure Decimal where
  significand : Int
  exponent : Int := 0
  deriving DecidableEq, Repr

namespace Decimal

def ofInt (n : Int) : Decimal where
  significand := n

def ofNat (n : Nat) : Decimal :=
  ofInt n

/-- The integer part, which is nearer to zero than the number. -/
def truncated (d : Decimal) : Int :=
  if 0 ≤ d.exponent then d.significand * Int.pow 10 d.exponent.toNat
  else d.significand.tdiv (Int.pow 10 d.exponent.natAbs)

end Decimal

end MakeRules
