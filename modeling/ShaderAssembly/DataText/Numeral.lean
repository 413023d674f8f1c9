import ShaderAssembly.DataText.Quotation
import ShaderAssembly.Number.Decimal

/-!
# Numbers in data

A number is an integer of 64 bits in base ten, two, eight or sixteen, with underscores between its
digits, or a decimal, without them. What is no integer can still be a decimal.
-/

namespace ShaderAssembly.DataText

/-- Takes a sign off a text. -/
def takeSign : List Char → Option Char × List Char
  | '+' :: rest => (some '+', rest)
  | '-' :: rest => (some '-', rest)
  | text => (none, text)

/-- Whether a character can be part of an integer in any base. -/
def isIntegerChar (c : Char) : Bool := (hexDigit? c).isSome || c == '_'

/-- Whether a character can be part of a decimal. -/
def isDecimalChar (c : Char) : Bool :=
  c.isDigit || c == 'e' || c == 'E' || c == '.' || c == '+' || c == '-' || c == '_'

/-- Takes the mark of a base other than ten off a text. -/
def takeBase : List Char → Nat × List Char
  | '0' :: 'x' :: rest => (16, rest)
  | '0' :: 'b' :: rest => (2, rest)
  | '0' :: 'o' :: rest => (8, rest)
  | text => (10, text)

/-- The number that digits spell in a base, underscores disregarded. -/
def digitsValue? (base : Nat) (digits : List Char) : Option Nat :=
  (digits.filter (· != '_')).foldlM (fun value c => do
    let digit ← hexDigit? c
    if digit < base then some (base * value + digit) else none) 0

/-- The largest magnitude of an integer. One that is written with a sign keeps a bit for it. -/
def magnitudeLimit : Option Char → Nat
  | some '-' => Nat.pow 2 63
  | some _ => Nat.pow 2 63 - 1
  | none => Nat.pow 2 64 - 1

/-- Passes over an integer: a sign, the mark of a base, and digits that an underscore may not come
before. -/
def passInteger? (text : List Char) : Option (List Char) := do
  let (sign?, unsigned) := takeSign text
  let (base, digits) := takeBase unsigned
  let spelled := digits.takeWhile isIntegerChar
  if spelled.head?.getD '_' = '_' then none
  else
    let value ← digitsValue? base spelled
    if value ≤ magnitudeLimit sign? then some (digits.dropWhile isIntegerChar) else none

/-- Passes over a decimal: a sign, and digits with a point and an exponent or one of the words for
what has no digits. -/
def passDecimal (text : List Char) : Except Fault (List Char) :=
  let unsigned := (takeSign text).2
  let word := String.ofList (unsigned.takeWhile continuesWord)
  if word = "inf" ∨ word = "NaN" then .ok (unsigned.dropWhile continuesWord)
  else
    let spelled := text.takeWhile isDecimalChar
    let rest := text.dropWhile isDecimalChar
    if '_' ∈ spelled then fail .underscoreInDecimal (text.dropWhile (· != '_'))
    else if (readBinary64? spelled).isSome then .ok rest
    else fail .expectedDecimal rest

/-- Passes over a number: an integer if no decimal goes further. -/
def passNumber (text : List Char) : Except Fault (List Char) :=
  let unsigned := (takeSign text).2
  let decimalLength := (unsigned.takeWhile isDecimalChar).length
  if (unsigned.takeWhile isIntegerChar).length < decimalLength then passDecimal text
  else
    match passInteger? text with
    | some rest => .ok rest
    | none => passDecimal text

end ShaderAssembly.DataText
