/-!
# Binary floating-point values

A finite value is a whole significand times a power of two, so every operation here is exact
arithmetic on natural numbers. A format bounds the width of the significand and the exponents;
`BinaryFormat.nearest` rounds any ratio to it, a tie going to the even significand. The two
formats used are the 64-bit and the 32-bit one.
-/

namespace ShaderAssembly

/-- A binary interchange format: how wide its significands are and which exponents they take. -/
structure BinaryFormat where
  /-- Number of bits in a full significand. -/
  precision : Nat
  /-- Exponent of the last significand bit of the smallest values. -/
  leastExponent : Int
  /-- Exponent of the last significand bit of the largest values. -/
  greatestExponent : Int
  deriving DecidableEq, Repr

namespace BinaryFormat

/-- The 64-bit format. -/
def binary64 : BinaryFormat := ⟨53, -1074, 971⟩

/-- The 32-bit format. -/
def binary32 : BinaryFormat := ⟨24, -149, 104⟩

end BinaryFormat

/-- A value of some binary format. -/
inductive BinaryValue where
  /-- The value `significand * 2 ^ exponent`, negated if `negative`. -/
  | finite (negative : Bool) (significand : Nat) (exponent : Int)
  /-- An infinity of the given sign. -/
  | infinite (negative : Bool)
  /-- The result of no meaningful computation. -/
  | undefined
  deriving DecidableEq, Repr

/-- Rounds `numerator / denominator` to the nearest natural number, a half going to the even
neighbour. -/
def roundHalfEven (numerator denominator : Nat) : Nat :=
  let quotient := numerator / denominator
  let doubled := 2 * (numerator % denominator)
  if doubled < denominator then quotient
  else if denominator < doubled then quotient + 1
  else quotient + quotient % 2

/-- The numerator and denominator of `numerator / denominator / 2 ^ exponent`. -/
def scaledRatio (numerator denominator : Nat) (exponent : Int) : Nat × Nat :=
  if 0 ≤ exponent then (numerator, denominator * Nat.pow 2 exponent.toNat)
  else (numerator * Nat.pow 2 (-exponent).toNat, denominator)

/-- The exponent of the power of two at or below a positive ratio. -/
def floorLog2 (numerator denominator : Nat) : Int :=
  let guess : Int := (numerator.log2 : Int) - denominator.log2
  let ratio := scaledRatio numerator denominator guess
  if ratio.2 ≤ ratio.1 then guess else guess - 1

namespace BinaryFormat

/-- The zero of a format, of the given sign. -/
def zero (format : BinaryFormat) (negative : Bool) : BinaryValue :=
  .finite negative 0 format.leastExponent

/-- The value of the format nearest to `numerator / denominator`, negated if `negative`. Ratios
beyond the largest value round to an infinity, and ratios below half the smallest to a zero. -/
def nearest (format : BinaryFormat) (negative : Bool) (numerator denominator : Nat) :
    BinaryValue :=
  if numerator = 0 then format.zero negative
  else
    let exponent :=
      max format.leastExponent (floorLog2 numerator denominator - (format.precision - 1 : Nat))
    let ratio := scaledRatio numerator denominator exponent
    let rounded := roundHalfEven ratio.1 ratio.2
    let carried := rounded = Nat.pow 2 format.precision
    let significand := if carried then rounded / 2 else rounded
    let exponent := if carried then exponent + 1 else exponent
    if format.greatestExponent < exponent then .infinite negative
    else .finite negative significand exponent

/-- The value of the format nearest to a value of any other format. -/
def convert (format : BinaryFormat) : BinaryValue → BinaryValue
  | .finite negative significand exponent =>
    if 0 ≤ exponent then format.nearest negative (significand * Nat.pow 2 exponent.toNat) 1
    else format.nearest negative significand (Nat.pow 2 (-exponent).toNat)
  | value => value

/-- The value of the format nearest to an integer. -/
def ofInt (format : BinaryFormat) (n : Int) : BinaryValue :=
  format.nearest (n < 0) n.natAbs 1

/-- The interchange encoding of a value of the format as a natural number: the sign, then the
biased exponent, then the significand without its leading bit. An undefined value has none. -/
def encode? (format : BinaryFormat) : BinaryValue → Option Nat
  | .finite negative significand exponent =>
    let hidden := Nat.pow 2 (format.precision - 1)
    let magnitude :=
      if significand < hidden then significand
      else (exponent - format.leastExponent + 1).toNat * hidden + (significand - hidden)
    some (withSign format negative magnitude)
  | .infinite negative =>
    some (withSign format negative (exponentCount format * Nat.pow 2 (format.precision - 1)))
  | .undefined => none
where
  /-- The biased exponent that infinities have, one above that of every finite value. -/
  exponentCount (format : BinaryFormat) : Nat :=
    (format.greatestExponent - format.leastExponent + 2).toNat
  /-- Puts the sign bit above the magnitude. -/
  withSign (format : BinaryFormat) (negative : Bool) (magnitude : Nat) : Nat :=
    if negative then (exponentCount format + 1) * Nat.pow 2 (format.precision - 1) + magnitude
    else magnitude

end BinaryFormat

namespace BinaryValue

/-- Whether the value is negative, negative zero included. -/
def isNegative : BinaryValue → Bool
  | .finite negative _ _ => negative
  | .infinite negative => negative
  | .undefined => false

/-- The integer that a whole finite value is. -/
def toInt? : BinaryValue → Option Int
  | .finite negative significand exponent =>
    let magnitude? :=
      if 0 ≤ exponent then some (significand * Nat.pow 2 exponent.toNat)
      else
        let unit := Nat.pow 2 (-exponent).toNat
        if significand % unit = 0 then some (significand / unit) else none
    magnitude?.map fun magnitude => if negative then -(magnitude : Int) else magnitude
  | _ => none

end BinaryValue

end ShaderAssembly
