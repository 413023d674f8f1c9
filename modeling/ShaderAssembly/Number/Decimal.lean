import ShaderAssembly.Number.Binary
import ShaderAssembly.Text.Digits

/-!
# Decimal texts

A decimal text is a sign, digits with at most one point among or beside them, and an exponent; or
one of the words `inf`, `infinity` and `nan` in any case. `readBinary64?` gives the 64-bit value
nearest to it, and accepts nothing else.
-/

namespace ShaderAssembly

/-- The decimal number `coefficient * 10 ^ exponent`, negated if `negative`. -/
structure Decimal where
  /-- Whether a minus sign was written. -/
  negative : Bool
  /-- All written digits as one number, the point disregarded. -/
  coefficient : Nat
  /-- The written exponent, less the number of digits after the point. -/
  exponent : Int
  deriving DecidableEq, Repr

namespace Decimal

/-- Takes the sign off a text: whether it is a minus, and what follows. -/
def takeSign : List Char → Bool × List Char
  | '-' :: rest => (true, rest)
  | '+' :: rest => (false, rest)
  | text => (false, text)

/-- Reads what may follow the digits of a number: nothing, or an exponent. -/
def readExponent? : List Char → Option Int
  | [] => some 0
  | mark :: rest =>
    if mark = 'e' ∨ mark = 'E' then
      let (negative, digits) := takeSign rest
      if Text.isDigits digits then
        some (if negative then -(Text.digitsValue digits : Int) else Text.digitsValue digits)
      else none
    else none

/-- Reads an unsigned number: digits, an optional point with digits, an optional exponent. There
has to be a digit before or after the point. -/
def readUnsigned? (negative : Bool) (text : List Char) : Option Decimal :=
  let whole := text.takeWhile Char.isDigit
  let afterWhole := text.dropWhile Char.isDigit
  let (fraction, rest) :=
    match afterWhole with
    | '.' :: more => (more.takeWhile Char.isDigit, more.dropWhile Char.isDigit)
    | _ => ([], afterWhole)
  if whole = [] ∧ fraction = [] then none
  else
    (readExponent? rest).map fun exponent =>
      ⟨negative, Text.digitsValue (whole ++ fraction), exponent - fraction.length⟩

/-- The 64-bit value nearest to a decimal number. Exponents that decide the result on their own
are answered without forming the power of ten. -/
def toBinary64 (decimal : Decimal) : BinaryValue :=
  let format := BinaryFormat.binary64
  if decimal.coefficient = 0 then format.zero decimal.negative
  else if 0 ≤ decimal.exponent then
    if 400 < decimal.exponent then .infinite decimal.negative
    else format.nearest decimal.negative (decimal.coefficient * Nat.pow 10 decimal.exponent.toNat) 1
  else
    let places := (-decimal.exponent).toNat
    if decimal.coefficient.log2 + 1101 < 3 * places then format.zero decimal.negative
    else format.nearest decimal.negative decimal.coefficient (Nat.pow 10 places)

end Decimal

/-- Reads a decimal text as the 64-bit value nearest to it. -/
def readBinary64? (text : List Char) : Option BinaryValue :=
  let (negative, unsigned) := Decimal.takeSign text
  let word := String.ofList (unsigned.map Char.toLower)
  if word = "inf" ∨ word = "infinity" then some (.infinite negative)
  else if word = "nan" then some .undefined
  else (Decimal.readUnsigned? negative unsigned).map Decimal.toBinary64

end ShaderAssembly
