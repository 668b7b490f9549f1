/-!
# Binary64 numbers

A `Binary64` is kept as its 64 bits, and `Binary64.magnitude` decodes them exactly. Comparison
follows the usual rules of the format: a NaN differs from everything, itself included, the two
zeros are equal, and other numbers are equal when their bits are.
-/

namespace ClassIndex

/-- A binary64 number, given by its bits. -/
structure Binary64 where
  bits : UInt64
deriving Inhabited

namespace Binary64

/-- What the bits below the sign stand for. -/
inductive Magnitude where
  | notANumber
  | infinite
  /-- The number `significand · 2 ^ exponent`. -/
  | finite (significand : Nat) (exponent : Int)
deriving DecidableEq

/-- Whether the sign bit is set; this also tells the two zeros apart. -/
def isNegative (x : Binary64) : Bool :=
  decide (Nat.pow 2 63 ≤ x.bits.toNat)

/-- The eleven exponent bits. -/
def exponentField (x : Binary64) : Nat :=
  x.bits.toNat / Nat.pow 2 52 % Nat.pow 2 11

/-- The 52 fraction bits. -/
def fractionField (x : Binary64) : Nat :=
  x.bits.toNat % Nat.pow 2 52

/-- The largest exponent field is kept for infinities and NaNs, and the smallest one for numbers
without the implicit leading bit. -/
def magnitude (x : Binary64) : Magnitude :=
  if x.exponentField = 2047 then
    if x.fractionField = 0 then .infinite else .notANumber
  else if x.exponentField = 0 then
    .finite x.fractionField (-1074)
  else
    .finite (Nat.pow 2 52 + x.fractionField) (x.exponentField - 1075)

def isNaN (x : Binary64) : Bool :=
  x.magnitude = .notANumber

/-- Either of the two zeros. -/
def isZero (x : Binary64) : Bool :=
  x.bits.toNat % Nat.pow 2 63 = 0

/-- Numeric equality. -/
def equal (x y : Binary64) : Bool :=
  !x.isNaN && !y.isNaN && (x.bits == y.bits || x.isZero && y.isZero)

instance : BEq Binary64 := ⟨equal⟩

end Binary64

end ClassIndex
