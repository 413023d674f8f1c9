/-!
# Decimal digits

The number that a run of decimal digits writes, most significant digit first.
-/

namespace ShaderAssembly.Text

/-- The number that decimal digits write. -/
def digitsValue (digits : List Char) : Nat :=
  digits.foldl (fun value digit => 10 * value + (digit.toNat - '0'.toNat)) 0

/-- Whether a text is one or more decimal digits. -/
def isDigits (text : List Char) : Bool := !text.isEmpty && text.all Char.isDigit

/-- One more digit at the end makes ten of what there was. -/
theorem digitsValue_append_singleton (digits : List Char) (digit : Char) :
    digitsValue (digits ++ [digit]) =
      10 * digitsValue digits + (digit.toNat - '0'.toNat) := by
  simp [digitsValue]

end ShaderAssembly.Text
