import ShaderAssembly.Number.Binary

/-!
# Shortest decimal texts

A finite value is written with the fewest significant digits that still round to it, and among
those with the digits nearest to it. The digits are searched on the decimal grids of one, two,
three and more digits: on the first grid with a point that rounds to the value, one of the two
points next to the value does. The notation is positional at every magnitude.
-/

namespace ShaderAssembly

/-- A decimal number `0.d₁d₂…dₙ * 10 ^ point`. -/
structure DecimalDigits where
  /-- The digits `d₁d₂…dₙ` read as one number. -/
  digits : Nat
  /-- How many digits there are. -/
  count : Nat
  /-- Where the point stands, counted from before the first digit. -/
  point : Int
  deriving DecidableEq, Repr

namespace BinaryFormat

/-- The ratios that round to a positive value of a format, all with one denominator. -/
structure RoundingInterval where
  /-- Numerator of the least ratio. -/
  low : Nat
  /-- Numerator of the value itself. -/
  value : Nat
  /-- Numerator of the greatest ratio. -/
  high : Nat
  /-- The common denominator. -/
  denominator : Nat
  /-- Whether both ends round to the value too. -/
  closed : Bool

/-- The interval of `significand * 2 ^ exponent`: half a unit to each side, but a quarter below a
power of two, where the values lie twice as close. -/
def roundingInterval (format : BinaryFormat) (significand : Nat) (exponent : Int) :
    RoundingInterval :=
  let atPowerOfTwo :=
    significand = Nat.pow 2 (format.precision - 1) ∧ format.leastExponent < exponent
  let below := if atPowerOfTwo then 1 else 2
  let quarter := scaledRatio 1 1 (2 - exponent)
  ⟨(4 * significand - below) * quarter.1, 4 * significand * quarter.1,
    (4 * significand + 2) * quarter.1, quarter.2, significand % 2 = 0⟩

end BinaryFormat

/-- The number of decimal digits before the point of `numerator / denominator`, or the negated
number of zeros after it: the least `k` with a ratio below `10 ^ k`. -/
def decimalPoint (numerator denominator : Nat) : Int :=
  if denominator ≤ numerator then (Nat.toDigits 10 (numerator / denominator)).length
  else 1 - ((Nat.toDigits 10 ((denominator - 1) / numerator)).length : Int)

namespace BinaryFormat.RoundingInterval

/-- Whether a ratio rounds to the value of the interval. -/
def contains (interval : RoundingInterval) (numerator denominator : Nat) : Bool :=
  let low := interval.low * denominator
  let high := interval.high * denominator
  let ratio := numerator * interval.denominator
  if interval.closed then low ≤ ratio && ratio ≤ high else low < ratio && ratio < high

/-- The nearer of the two grid points next to the value that round to it, on the grid of `count`
significant digits. -/
def onGrid? (interval : RoundingInterval) (point : Int) (count : Nat) : Option Nat :=
  let unitExponent := point - count
  let unit := if 0 ≤ unitExponent then Nat.pow 10 unitExponent.toNat else 1
  let parts := if 0 ≤ unitExponent then 1 else Nat.pow 10 (-unitExponent).toNat
  let numerator := interval.value * parts
  let denominator := interval.denominator * unit
  let below := numerator / denominator
  let fitsBelow := interval.contains (below * unit) parts
  let fitsAbove := interval.contains ((below + 1) * unit) parts
  if fitsBelow ∧ (¬fitsAbove ∨ 2 * (numerator % denominator) < denominator) then some below
  else if fitsAbove then some (below + 1)
  else none

/-- The digits found on the first of the grids with `count`, `count + 1`, … digits that has a
point rounding to the value; `more` bounds how many grids are tried. -/
def shortestFrom (interval : RoundingInterval) (point : Int) (count : Nat) :
    (more : Nat) → DecimalDigits
  | 0 => ⟨0, count, point⟩
  | more + 1 =>
    match interval.onGrid? point count with
    | some digits =>
      if digits = Nat.pow 10 count then ⟨Nat.pow 10 (count - 1), count, point + 1⟩
      else ⟨digits, count, point⟩
    | none => shortestFrom interval point (count + 1) more

end BinaryFormat.RoundingInterval

namespace BinaryFormat

/-- The shortest digits of a positive value of the format. Seventeen digits tell apart any two
values of the formats used. -/
def shortestDigits (format : BinaryFormat) (significand : Nat) (exponent : Int) :
    DecimalDigits :=
  let interval := format.roundingInterval significand exponent
  interval.shortestFrom (decimalPoint interval.value interval.denominator) 1 17

end BinaryFormat

namespace DecimalDigits

/-- The digits written out to `count` places, zeros in front. -/
def places (decimal : DecimalDigits) : List Char :=
  let shown := Nat.toDigits 10 decimal.digits
  List.replicate (decimal.count - shown.length) '0' ++ shown

/-- The positional text: zeros fill the places between the digits and the point. -/
def positional (decimal : DecimalDigits) : List Char :=
  let digits := decimal.places
  if decimal.point ≤ 0 then
    '0' :: '.' :: (List.replicate (-decimal.point).toNat '0' ++ digits)
  else
    let whole := decimal.point.toNat
    if whole < decimal.count then digits.take whole ++ '.' :: digits.drop whole
    else digits ++ List.replicate (whole - decimal.count) '0'

end DecimalDigits

namespace BinaryFormat

/-- The shortest positional text of a value of the format, without a point if it is whole. -/
def shortestText (format : BinaryFormat) (value : BinaryValue) : String :=
  match value with
  | .undefined => "NaN"
  | .infinite negative => if negative then "-inf" else "inf"
  | .finite negative significand exponent =>
    let sign := if negative then ['-'] else []
    let magnitude :=
      if significand = 0 then ['0']
      else (format.shortestDigits significand exponent).positional
    String.ofList (sign ++ magnitude)

end BinaryFormat

end ShaderAssembly
