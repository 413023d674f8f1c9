/-!
# Types of properties

A property has one of seven types, each with a keyword. The vector types hold a fixed number of
components.
-/

namespace ShaderAssembly

/-- The type of a property. -/
inductive PropertyType where
  | float
  | int
  | vec2
  | vec3
  | vec4
  | color
  | texture2D
  deriving DecidableEq, Repr, Inhabited

namespace PropertyType

/-- All types. -/
def all : List PropertyType := [.float, .int, .vec2, .vec3, .vec4, .color, .texture2D]

/-- The keyword of a type. -/
def keyword : PropertyType → String
  | .float => "float"
  | .int => "int"
  | .vec2 => "vec2"
  | .vec3 => "vec3"
  | .vec4 => "vec4"
  | .color => "color"
  | .texture2D => "texture2D"

/-- The type with a keyword. -/
def ofKeyword? (word : String) : Option PropertyType := all.find? (·.keyword = word)

/-- How many components a vector type has. -/
def arity? : PropertyType → Option Nat
  | .vec2 => some 2
  | .vec3 => some 3
  | .vec4 | .color => some 4
  | _ => none

/-- A type is found by its keyword. -/
@[simp]
theorem ofKeyword?_keyword (type : PropertyType) : ofKeyword? type.keyword = some type := by
  cases type <;> decide

end PropertyType

end ShaderAssembly
