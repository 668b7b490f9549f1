import ClassIndex.Decimal.Shortest

/-!
# Written numbers

A `NumberFormat` says how the digits of a binary64 number are laid out: which numbers are written
without an exponent, and what ends a number without a fraction. `NumberFormat.render` writes a
number with its shortest digits.
-/

namespace ClassIndex

/-- The decisions left open once the digits of a number are known. -/
structure NumberFormat where
  /-- Whether a number whose leading digit stands for this power of ten is written without an
  exponent. -/
  positional : Int → Bool
  /-- What follows a positional number that has no fraction. -/
  wholeEnd : String

namespace NumberFormat

/-- All digits in place, with zeros up to the decimal point. -/
def renderPositional (format : NumberFormat) (d : Decimal) : String :=
  let digits := d.digits
  if 0 ≤ d.exponent then
    String.ofList (digits ++ List.replicate d.exponent.toNat '0') ++ format.wholeEnd
  else
    let places := (-d.exponent).toNat
    let padded := List.replicate (places + 1 - digits.length) '0' ++ digits
    let whole := padded.take (padded.length - places)
    let fraction := padded.drop (padded.length - places)
    String.ofList (whole ++ ['.'] ++ fraction)

/-- The leading digit, the other digits after a point, and the power of ten. -/
def renderScientific (d : Decimal) : String :=
  let digits := d.digits
  let fraction := if digits.length ≤ 1 then [] else '.' :: digits.drop 1
  String.ofList (digits.take 1 ++ fraction) ++ "e" ++ toString d.leadingPower

/-- The text of a number without its sign. -/
def renderMagnitude (format : NumberFormat) : Binary64.Magnitude → String
  | .notANumber => "NaN"
  | .infinite => "inf"
  | .finite 0 _ => "0" ++ format.wholeEnd
  | .finite m q =>
    let d := Decimal.shortest m q
    if format.positional d.leadingPower then format.renderPositional d else renderScientific d

/-- The text of a number. The sign of a NaN is not shown, that of a zero is. -/
def render (format : NumberFormat) (x : Binary64) : String :=
  if x.isNegative && !x.isNaN then
    "-" ++ format.renderMagnitude x.magnitude
  else
    format.renderMagnitude x.magnitude

end NumberFormat

end ClassIndex
