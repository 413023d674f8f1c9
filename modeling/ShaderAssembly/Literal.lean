import ShaderAssembly.Number.Decimal
import ShaderAssembly.Number.Shortest
import ShaderAssembly.Text.Quoted

/-!
# Literals

A literal is a default or an annotation as it is written, before it is given a type. A number
remembers whether it was written as a float, which a point, an exponent or a suffix makes it.
-/

namespace ShaderAssembly

/-- A number as written. -/
structure Number where
  /-- The 64-bit value nearest to the number. -/
  value : BinaryValue
  /-- Whether it was written as a float. -/
  isFloat : Bool
  deriving DecidableEq, Repr

namespace Number

/-- Whether a character is the suffix of a float. -/
def isSuffix (c : Char) : Bool := c == 'f' || c == 'F'

/-- Whether a character in a number makes it a float. -/
def marksFloat (c : Char) : Bool := c == '.' || c == 'e' || c == 'E'

/-- Reads a number. All suffixes at its end are passed over. -/
def parse? (lexeme : String) : Option Number :=
  let text := lexeme.toList
  let digits := (text.reverse.dropWhile isSuffix).reverse
  let isFloat := digits.length ≠ text.length || digits.any marksFloat
  (readBinary64? digits).map fun value => ⟨value, isFloat⟩

/-- An integer as a number. -/
def ofInt (n : Int) : Number := ⟨BinaryFormat.binary64.ofInt n, false⟩

/-- A value as a number written as a float. -/
def ofFloat (value : BinaryValue) : Number := ⟨value, true⟩

/-- How a number is written: a whole float with all its digits and `.0`, everything else with the
fewest digits that give the value back. -/
def text (number : Number) : String :=
  match number.isFloat, number.value.toInt? with
  | true, some n =>
    let sign := if number.value.isNegative then "-" else ""
    s!"{sign}{n.natAbs}.0"
  | _, _ => BinaryFormat.binary64.shortestText number.value

end Number

/-- A literal as written. -/
inductive Literal where
  /-- A number. -/
  | number (number : Number)
  /-- A quoted string. -/
  | string (text : String)
  /-- Numbers in brackets. -/
  | tuple (components : List Number)
  /-- One of the words `true` and `false`. -/
  | boolean (value : Bool)
  /-- A sampler state, which names the texture it reads. -/
  | sampler (texture : String)
  deriving DecidableEq, Repr

namespace Literal

/-- What a literal is, for messages about its type. -/
def shape : Literal → String
  | .number written => if written.isFloat then "a float" else "an integer"
  | .string _ => "a string"
  | .tuple components => s!"a {components.length}-component tuple"
  | .boolean _ => "a boolean"
  | .sampler _ => "a sampler state"

/-- The value of a literal that is a number. -/
def number? : Literal → Option BinaryValue
  | .number written => some written.value
  | _ => none

/-- The text of a literal that is a string. -/
def string? : Literal → Option String
  | .string contents => some contents
  | _ => none

/-- How a literal is written. -/
def text : Literal → String
  | .number written => written.text
  | .string contents => Text.quoted .plain contents
  | .tuple components => "(" ++ String.intercalate ", " (components.map Number.text) ++ ")"
  | .boolean value => if value then "true" else "false"
  | .sampler texture => r"sampler_state { Texture = <" ++ texture ++ r">; }"

end Literal

end ShaderAssembly
