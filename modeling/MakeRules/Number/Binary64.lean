import MakeRules.Number.Decimal
import MakeRules.Text.Numeral

/-! Binary floating point with 53 bits: rounding to it, and the shortest decimals that read back.

Both are exact arithmetic on fractions. A decimal rounds to the nearest binary
number, ties to the even one; a binary number is written by the coarsest decimal
that rounds to it, of two such the nearer.
-/

set_option autoImplicit false

namespace MakeRules

/-- The positive number `significand * 2 ^ exponent`. -/
structure Binary64 where
  significand : Nat
  exponent : Int
  deriving DecidableEq, Repr

/-- The nearest integer, of two nearest the even one. -/
def roundToEven (x : Rat) : Int :=
  let below := x.floor
  let rest := x - below
  if rest < 1 / 2 ∨ (rest = 1 / 2 ∧ below % 2 = 0) then below else below + 1

namespace Binary64

def leastExponent : Int := -1074

def greatestExponent : Int := 971

/-- Round to the grid of an exponent, or to the next grid if that gives too many bits. -/
def roundAt (x : Rat) (exponent : Int) : Binary64 :=
  let significand := (roundToEven (x / (2 : Rat) ^ exponent)).toNat
  if significand < Nat.pow 2 53 then ⟨significand, exponent⟩
  else
    let significand := (roundToEven (x / (2 : Rat) ^ (exponent + 1))).toNat
    if significand < Nat.pow 2 53 then ⟨significand, exponent + 1⟩ else ⟨Nat.pow 2 52, exponent + 2⟩

/-- Round a positive fraction; `none` if it lies beyond all binary numbers. -/
def ofRat? (x : Rat) : Option Binary64 :=
  let bits : Int := (x.num.natAbs.log2 : Int) - x.den.log2
  -- the logarithms leave one bit open, so the significand has 53 or 54 bits
  let rounded := roundAt x (max leastExponent (bits - 53))
  if rounded.exponent ≤ greatestExponent then some rounded else none

def toRat (b : Binary64) : Rat :=
  b.significand * (2 : Rat) ^ b.exponent

/-- Whether a fraction rounds to this number. -/
def attracts (b : Binary64) (x : Rat) : Bool :=
  let half := (2 : Rat) ^ (b.exponent - 1)
  let above := b.toRat + half
  -- below a power of two the grid is twice as fine
  let below :=
    if b.significand = Nat.pow 2 52 ∧ leastExponent < b.exponent then b.toRat - half / 2
    else b.toRat - half
  (below < x && x < above) || (b.significand % 2 == 0 && (x == below || x == above))

/-- The multiple of a power of ten that rounds to this number, of two the nearer. -/
def onGrid? (b : Binary64) (exponent : Int) : Option Decimal :=
  let unit := (10 : Rat) ^ exponent
  let down := (b.toRat / unit).floor
  let nearest := roundToEven (b.toRat / unit)
  let other := if nearest = down then down + 1 else down
  if 0 < nearest ∧ b.attracts (nearest * unit) then some ⟨nearest, exponent⟩
  else if 0 < other ∧ b.attracts (other * unit) then some ⟨other, exponent⟩
  else none

/-- The exponent of a power of ten above this number, which has 53 bits at most. -/
def decimalBound (b : Binary64) : Int :=
  -- a bit is a little less than 0.30103 decimal digits
  (b.exponent + 53) * 30103 / 100000 + 2

/-- The decimal of fewest digits that rounds to this number. -/
def shortest (b : Binary64) : Decimal :=
  -- 53 bits may be zeros but for the last, and 17 digits tell all binary numbers apart
  ((List.range 40).findSome? fun (step : Nat) => b.onGrid? (b.decimalBound - step)).getD ⟨0, 0⟩

/-- The value of a fraction once it is rounded. -/
def nearest (x : Rat) : Rat :=
  ((ofRat? x).map toRat).getD 0

/-- Divide by 36, rounding each time, until 53 bits hold the number; with it, how often. -/
def dropDigits : (fuel : Nat) → Rat → Rat × Nat
  | 0, x => (x, 0)
  | fuel + 1, x =>
    if x < (2 : Rat) ^ 53 then (x, 0)
    else
      let (rest, dropped) := dropDigits fuel (nearest (x / 36))
      (rest, dropped + 1)

/-- A natural number, rounded, in base 36, zeros standing for the digits that are not held.
No binary number has more than 200 digits. -/
def base36 (n : Nat) : Text :=
  let (rest, dropped) := dropDigits 200 (nearest n)
  Text.base36 rest.floor.toNat ++ List.replicate dropped '0'

end Binary64

namespace Decimal

/-- The number of digits before the point, negative for zeros behind it. -/
def magnitude (d : Decimal) : Int :=
  (Text.ofNat d.significand.natAbs).length + d.exponent

/-- Round the absolute value. Decimals far outside the range of binary numbers are settled
by their magnitude alone. -/
def round (d : Decimal) : Option Binary64 :=
  if d.significand = 0 then some ⟨0, Binary64.leastExponent⟩
  else if 310 < d.magnitude then none
  else if d.magnitude < -330 then some ⟨0, Binary64.leastExponent⟩
  else Binary64.ofRat? (d.significand.natAbs * (10 : Rat) ^ d.exponent)

/-- Whether a number is an integer that is written as one, and that binary numbers hold
exactly with all integers below it. -/
def isSafe (d : Decimal) : Bool :=
  d.exponent = 0 ∧ d.significand.natAbs ≤ Nat.pow 2 53

/-- A number beyond all binary ones. -/
def beyond : Decimal := ⟨1, 309⟩

def roundedAbs (d : Decimal) : Decimal :=
  match d.round with
  | none => beyond
  | some b => if b.significand = 0 then ⟨0, 0⟩ else b.shortest

def rounded (d : Decimal) : Decimal :=
  if d.isSafe then d
  else { d.roundedAbs with significand := d.significand.sign * d.roundedAbs.significand }

/-- Digits with the point in its place, or with an exponent if that place is more than
six behind or more than 21 before the first digit. -/
def layout (digits : Text) (point : Int) : Text :=
  let count : Int := digits.length
  if count ≤ point ∧ point ≤ 21 then digits ++ List.replicate (point - count).toNat '0'
  else if 0 < point ∧ point ≤ 21 then digits.take point.toNat ++ '.' :: digits.drop point.toNat
  else if -6 < point ∧ point ≤ 0 then "0.".toList ++ List.replicate (-point).toNat '0' ++ digits
  else
    let fraction := if digits.length ≤ 1 then [] else '.' :: digits.drop 1
    let sign := if point < 1 then '-' else '+'
    digits.take 1 ++ fraction ++ 'e' :: sign :: Text.ofNat (point - 1).natAbs

def roundedText (d : Decimal) : Text :=
  match d.round with
  | none => "Infinity".toList
  | some b =>
    if b.significand = 0 then ['0']
    else
      let shortest := b.shortest
      layout (Text.ofNat shortest.significand.natAbs) shortest.magnitude

/-- The plain text of a number: of binary precision, in the fewest digits. Integers that
binary numbers hold exactly are their own digits. -/
def text (d : Decimal) : Text :=
  if d.isSafe then Text.signed Text.ofNat d.significand
  else if d.significand < 0 ∧ d.roundedText ≠ ['0'] then '-' :: d.roundedText
  else d.roundedText

end Decimal

end MakeRules
