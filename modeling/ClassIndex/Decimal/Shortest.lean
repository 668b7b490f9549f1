import ClassIndex.Decimal.Binary64

/-!
# Shortest decimals

`Decimal.shortest m q` is the decimal with the fewest digits that reads back as the binary64 number
`m · 2 ^ q`; of several with that many digits it is the nearest one, and of two equally near ones
the larger.

All arithmetic is exact. A number rounds to `m · 2 ^ q` when it lies between the midpoints to the
two neighbours, the midpoints themselves included when `m` is even. For each number of digits
only the two points of the decimal grid next to the value have to be tried: a point further away
lies in the interval only if one of them does.
-/

namespace ClassIndex

/-- The number `coefficient · 10 ^ exponent`. -/
structure Decimal where
  coefficient : Nat
  exponent : Int
deriving DecidableEq, Inhabited

/-- The numbers that round to one binary64 number: the bounds and the number itself, as numerators
over one denominator. -/
structure RoundingInterval where
  low : Nat
  value : Nat
  high : Nat
  denominator : Nat
  /-- Whether the bounds belong to the interval. -/
  closed : Bool

namespace RoundingInterval

/-- The interval of `m · 2 ^ q`. Below a power of two the numbers lie twice as dense, except below
the smallest one with full precision. -/
def ofBinary (m : Nat) (q : Int) : RoundingInterval :=
  let unit := Nat.pow 2 q.toNat
  let below := if m = Nat.pow 2 52 ∧ -1074 < q then 1 else 2
  { low := (4 * m - below) * unit
    value := 4 * m * unit
    high := (4 * m + 2) * unit
    denominator := 4 * Nat.pow 2 (-q).toNat
    closed := m % 2 = 0 }

/-- The power of ten of the leading digit of the value. -/
def leadingPower (i : RoundingInterval) : Int :=
  if i.denominator ≤ i.value then
    (Nat.toDigits 10 (i.value / i.denominator)).length - 1
  else
    -((Nat.toDigits 10 ((i.denominator - 1) / i.value)).length : Int)

/-- The numerator of `coefficient · 10 ^ exponent`, with all numerators scaled by the power of ten
that makes it whole. -/
def numerator (i : RoundingInterval) (d : Decimal) : Nat :=
  d.coefficient * Nat.pow 10 d.exponent.toNat * i.denominator

/-- A numerator of the interval on the scale of `numerator`. -/
def scaled (numerator : Nat) (exponent : Int) : Nat :=
  numerator * Nat.pow 10 (-exponent).toNat

/-- Whether a decimal reads back as the number. -/
def contains (i : RoundingInterval) (d : Decimal) : Bool :=
  let n := i.numerator d
  let low := scaled i.low d.exponent
  let high := scaled i.high d.exponent
  if i.closed then low ≤ n && n ≤ high else low < n && n < high

/-- The greatest multiple of `10 ^ exponent` that does not exceed the value. -/
def floorOn (i : RoundingInterval) (exponent : Int) : Decimal :=
  ⟨scaled i.value exponent / (Nat.pow 10 exponent.toNat * i.denominator), exponent⟩

/-- The decimal on the grid of `10 ^ exponent` that reads back as the number and is nearest to it,
if there is one. -/
def nearestOn? (i : RoundingInterval) (exponent : Int) : Option Decimal :=
  let lower := i.floorOn exponent
  let upper : Decimal := ⟨lower.coefficient + 1, exponent⟩
  let value := scaled i.value exponent
  match i.contains lower, i.contains upper with
  | true, true =>
    some (if value - i.numerator lower < i.numerator upper - value then lower else upper)
  | true, false => some lower
  | false, true => some upper
  | false, false => none

end RoundingInterval

namespace Decimal

/-- Moves up to `n` trailing zeros of the coefficient into the exponent. -/
def stripZeros : Nat → Decimal → Decimal
  | 0, d => d
  | n + 1, d =>
    if d.coefficient % 10 = 0 then stripZeros n ⟨d.coefficient / 10, d.exponent + 1⟩ else d

/-- No binary64 number needs more digits than this. -/
def maxDigits : Nat := 17

/-- The shortest decimal of the positive number `m · 2 ^ q`. -/
def shortest (m : Nat) (q : Int) : Decimal :=
  let interval := RoundingInterval.ofBinary m q
  let power := interval.leadingPower
  let grids := (List.range maxDigits).map fun (places : Nat) => power - places
  let found := grids.findSome? interval.nearestOn?
  (found.getD (interval.floorOn (power - maxDigits))).stripZeros (maxDigits + 1)

/-- The digits of the coefficient, the most significant one first. -/
def digits (d : Decimal) : List Char :=
  Nat.toDigits 10 d.coefficient

/-- The power of ten of the leading digit. -/
def leadingPower (d : Decimal) : Int :=
  d.exponent + d.digits.length - 1

end Decimal

end ClassIndex
