import ShaderAssembly.Text.Quoted

/-!
# Data

Tables are written as texts that consist of words, strings, numbers, lists, maps, tuples and
records. A `Datum` is what such a text says.
-/

namespace ShaderAssembly

/-- A piece of data. -/
inductive Datum where
  /-- A word that stands alone. -/
  | word (name : String)
  /-- A quoted string. -/
  | text (contents : String)
  /-- A number as it is spelled. -/
  | number (spelling : String)
  /-- Items in square brackets. -/
  | list (items : List Datum)
  /-- Keys and values in braces. -/
  | map (entries : List (Datum × Datum))
  /-- Items in round brackets, possibly after a name. -/
  | tuple (name? : Option String) (items : List Datum)
  /-- Named fields in round brackets, possibly after a name. -/
  | record (name? : Option String) (fields : List (String × Datum))

instance : Inhabited Datum := ⟨.word ""⟩

end ShaderAssembly
