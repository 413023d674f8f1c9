import ShaderAssembly.Datum.Printer
import ShaderAssembly.Number.Shortest
import ShaderAssembly.OrderedMap
import ShaderAssembly.Property

/-!
# Property tables

The properties of a shader are shown to other programs as one piece of data: a map from the names
of the properties to records with their label, type, default and advice for editors. Where a
property was declared is left out.
-/

namespace ShaderAssembly

/-- The word or tuple of a named alternative with the given contents. -/
def Datum.named (name : String) (contents : List Datum) : Datum :=
  if contents.isEmpty then .word name else .tuple (some name) contents

/-- A value of the 32-bit format: its shortest text, with `.0` behind it if it is whole. -/
def Datum.ofBinary32 (value : BinaryValue) : Datum :=
  let shortest := BinaryFormat.binary32.shortestText value
  .number (if value.toInt?.isSome then shortest ++ ".0" else shortest)

/-- Components of a vector in round brackets. -/
def Datum.ofComponents (components : List BinaryValue) : Datum :=
  .tuple none (components.map .ofBinary32)

/-- The default of a property as data. -/
def Value.datum : Value → Datum
  | .float value => .named "Float" [.ofBinary32 value]
  | .int value => .named "Int" [.number (toString value)]
  | .vec2 x y => .named "Vec2" [.ofComponents [x, y]]
  | .vec3 x y z => .named "Vec3" [.ofComponents [x, y, z]]
  | .vec4 x y z w => .named "Vec4" [.ofComponents [x, y, z, w]]
  | .color red green blue alpha => .named "Color" [.ofComponents [red, green, blue, alpha]]
  | .texture2D name => .named "Texture2D" [.text name]

/-- Advice for editors as data. -/
def EditorHint.datum : EditorHint → Datum
  | .range min max =>
    .record (some "Range") [("min", .ofBinary32 min), ("max", .ofBinary32 max)]
  | .toggle => .named "Toggle" []
  | .header title => .named "Header" [.text title]

/-- A property as data. -/
def Property.datum (property : Property) : Datum :=
  let default := match property.default? with
    | some value => Datum.named "Some" [value.datum]
    | none => .named "None" []
  .record none [("name", .text property.name), ("label", .text property.label),
    ("type", .word property.type.keyword), ("default", default),
    ("attributes", .list (property.attributes.map EditorHint.datum))]

/-- Properties under their names. -/
abbrev PropertyTable : Type := OrderedMap String Property

namespace PropertyTable

/-- A table as data. -/
def datum (table : PropertyTable) : Datum :=
  .map (table.entries.map fun entry => (.text entry.1, entry.2.datum))

/-- The text of a table. -/
def text (table : PropertyTable) : String := table.datum.pretty 0

end PropertyTable

end ShaderAssembly
