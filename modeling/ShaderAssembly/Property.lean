import ShaderAssembly.Error
import ShaderAssembly.Literal

/-!
# Properties

A property is a value that the users of a shader can edit. Its type is written, or follows from
the shape of its default: an integer or a float, or a tuple of two, three or four components. A
written type wins, and a default has to fit the type exactly.
-/

namespace ShaderAssembly

/-- The default of a property, in the 32-bit format where it is not an integer. -/
inductive Value where
  | float (value : BinaryValue)
  | int (value : Int)
  | vec2 (x y : BinaryValue)
  | vec3 (x y z : BinaryValue)
  | vec4 (x y z w : BinaryValue)
  | color (red green blue alpha : BinaryValue)
  /-- The name of an image. -/
  | texture2D (name : String)
  deriving DecidableEq, Repr

/-- Advice for editors, attached to a property. -/
inductive EditorHint where
  /-- The ends of a slider. -/
  | range (min max : BinaryValue)
  /-- A check box. -/
  | toggle
  /-- A title above the property. -/
  | header (text : String)
  deriving DecidableEq, Repr

/-- A property as declared, its type possibly still open. -/
structure PropertyDeclaration where
  /-- The name in code. -/
  name : String
  /-- The name shown to users. -/
  label : String
  /-- The written type. -/
  type? : Option PropertyType
  /-- The written default. -/
  default? : Option Literal
  /-- Advice for editors, in written order. -/
  attributes : List EditorHint
  /-- Where the name stands. -/
  position : Position
  deriving DecidableEq, Repr

/-- A property with its type and typed default. -/
structure Property where
  /-- The name in code. -/
  name : String
  /-- The name shown to users. -/
  label : String
  /-- The type. -/
  type : PropertyType
  /-- The default, of that type. -/
  default? : Option Value
  /-- Advice for editors, in written order. -/
  attributes : List EditorHint
  /-- Where the name stands. -/
  position : Position
  deriving DecidableEq, Repr

/-- The 32-bit value nearest to a number. -/
def Number.toBinary32 (number : Number) : BinaryValue :=
  BinaryFormat.binary32.convert number.value

namespace Value

/-- The least integer a value can hold. -/
def leastInt : Int := -2147483648

/-- The greatest integer a value can hold. -/
def greatestInt : Int := 2147483647

/-- The integer that a number is, if it can be held. -/
def integer? (number : Number) : Option Int :=
  match number.value.toInt? with
  | some n => if leastInt ≤ n ∧ n ≤ greatestInt then some n else none
  | none => none

end Value

namespace Literal

/-- The type a literal implies on its own, if it implies one. -/
def impliedType? : Literal → Option PropertyType
  | .number written => some (if written.isFloat then .float else .int)
  | .tuple [_, _] => some .vec2
  | .tuple [_, _, _] => some .vec3
  | .tuple [_, _, _, _] => some .vec4
  | _ => none

/-- The value of the given type that a literal writes, if its shape fits the type. -/
def toValue? (type : PropertyType) (literal : Literal) : Option Value :=
  match type, literal with
  | .float, .number written => some (.float written.toBinary32)
  | .int, .number written =>
    if written.isFloat then none else (Value.integer? written).map .int
  | .int, .boolean value => some (.int (if value then 1 else 0))
  | .vec2, .tuple [x, y] => some (.vec2 x.toBinary32 y.toBinary32)
  | .vec3, .tuple [x, y, z] => some (.vec3 x.toBinary32 y.toBinary32 z.toBinary32)
  | .vec4, .tuple [x, y, z, w] =>
    some (.vec4 x.toBinary32 y.toBinary32 z.toBinary32 w.toBinary32)
  | .color, .tuple [red, green, blue, alpha] =>
    some (.color red.toBinary32 green.toBinary32 blue.toBinary32 alpha.toBinary32)
  | .texture2D, .string name => some (.texture2D name)
  | .texture2D, .sampler texture => some (.texture2D texture)
  | _, _ => none

end Literal

namespace PropertyDeclaration

/-- The type of the declared property: the written one, or the one its default implies. -/
def resolvedType? (declaration : PropertyDeclaration) : Option PropertyType :=
  declaration.type? <|> declaration.default?.bind Literal.impliedType?

/-- Gives the property its type and converts its default to that type. -/
def resolve (declaration : PropertyDeclaration) : Except Error Property :=
  match declaration.resolvedType? with
  | none => .error (.ambiguousDefault declaration.name declaration.position)
  | some type =>
    let resolved : Option Value → Property := fun default? =>
      ⟨declaration.name, declaration.label, type, default?, declaration.attributes,
        declaration.position⟩
    match declaration.default? with
    | none => .ok (resolved none)
    | some literal =>
      match literal.toValue? type with
      | some value => .ok (resolved (some value))
      | none =>
        .error (.typeMismatch declaration.name type literal.shape declaration.position)

end PropertyDeclaration

end ShaderAssembly
