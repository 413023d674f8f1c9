import ShaderAssembly.Datum

/-!
# Writing data

Lists, maps and records are written with each item on a line of its own, which ends with a comma
and is indented by four blanks more than the brackets. Tuples are written on one line.
-/

namespace ShaderAssembly.Datum

/-- The blanks before a line at the given depth. -/
def indentation (depth : Nat) : String := String.ofList (List.replicate (4 * depth) ' ')

/-- Items one below the other between brackets that stand at the given depth. -/
def stacked (opening closing : String) (depth : Nat) (items : List String) : String :=
  if items.isEmpty then opening ++ closing
  else
    let line := fun item => indentation (depth + 1) ++ item ++ ",\n"
    opening ++ "\n" ++ String.join (items.map line) ++ indentation depth ++ closing

mutual

/-- How data is written at the given depth. -/
def pretty (depth : Nat) : Datum → String
  | .word name => name
  | .text contents => Text.quoted .escaped contents
  | .number spelling => spelling
  | .list items => stacked "[" "]" depth (prettyItems (depth + 1) items)
  | .map entries => stacked r"{" r"}" depth (prettyEntries (depth + 1) entries)
  | .tuple name? items =>
    name?.getD "" ++ "(" ++ String.intercalate ", " (prettyItems depth items) ++ ")"
  | .record name? fields =>
    name?.getD "" ++ stacked "(" ")" depth (prettyFields (depth + 1) fields)

/-- How each of some items is written. -/
def prettyItems (depth : Nat) : List Datum → List String
  | [] => []
  | item :: rest => pretty depth item :: prettyItems depth rest

/-- How each of some entries of a map is written. -/
def prettyEntries (depth : Nat) : List (Datum × Datum) → List String
  | [] => []
  | (key, value) :: rest =>
    (pretty depth key ++ ": " ++ pretty depth value) :: prettyEntries depth rest

/-- How each of some fields of a record is written. -/
def prettyFields (depth : Nat) : List (String × Datum) → List String
  | [] => []
  | (name, value) :: rest => (name ++ ": " ++ pretty depth value) :: prettyFields depth rest

end

end ShaderAssembly.Datum
