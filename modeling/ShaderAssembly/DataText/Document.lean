import ShaderAssembly.DataText.Value

/-!
# Whole data texts

A data text consists of one value. Attributes that enable extensions may stand in front of it. The
extension `implicit_some` lets what `Some` holds stand without brackets; the others have no effect
on what is read here.
-/

namespace ShaderAssembly.DataText

/-- The extensions that can be enabled. -/
def extensions : List String := ["unwrap_newtypes", "implicit_some", "unwrap_variant_newtypes"]

/-- Passes over marks that have to follow each other. The marks after one that is missing are
passed over before the text fails. -/
def passMarks (missing : Cause) (marks : List String) : Pass := fun text => do
  let step := fun (state : Bool × List Char) (mark : String) =>
    match mark.toList.isPrefixOf? state.2 with
    | some rest => do return (state.1, ← skip rest)
    | none => return (false, state.2)
  let (complete, rest) ← marks.foldlM step (true, text)
  if complete then return rest else fail missing rest

/-- Reads the names of extensions, with commas between them and possibly after the last. -/
def readExtensions (text : List Char) : Except Fault (List String × List Char) := do
  let (name, rest) ← readWord text
  if name ∉ extensions then fail (.unknownExtension name) rest
  else
    let goesOn := fun (text : List Char) => (text.head?.map continuesWord).getD false
    match ← skip rest with
    | ',' :: rest =>
      let more ← skip rest
      if goesOn more ∧ more.length < text.length then
        let (names, after) ← readExtensions more
        return (name :: names, after)
      else return ([name], more)
    | more => if goesOn more then fail .expectedComma more else return ([name], more)
termination_by text.length

/-- Reads the attributes in front of a value: the names of the extensions that they enable. -/
def readAttributes (text : List Char) : Except Fault (List String × List Char) := do
  let start ← skip text
  if start.head? = some '#' then
    let inside ← passMarks .expectedAttribute ["#", "!", "[", "enable", "("] start
    let (names, rest) ← readExtensions inside
    let rest ← passMarks .expectedAttributeEnd [")", "]"] rest
    if rest.length < text.length then
      let (others, after) ← readAttributes rest
      return (names ++ others, after)
    else return (names, rest)
  else return ([], start)
termination_by text.length

/-- Reads a text that consists of one value. The reader of the value is told whether what `Some`
holds can stand without brackets. -/
def readWhole {α : Type} (value : (bare : Bool) → List Char → Except Fault (α × List Char))
    (text : List Char) : Except Fault α := do
  let (names, rest) ← readAttributes text
  let (result, rest) ← value (names.contains "implicit_some") rest
  match ← skip rest with
  | [] => return result
  | rest => fail .trailingText rest

end ShaderAssembly.DataText
