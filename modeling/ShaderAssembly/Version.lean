import ShaderAssembly.Text.Blank

/-!
# Version directives

A line declares a version if its first characters that are not blank are `#` and the word
`version`, possibly with blanks between, and at least one blank follows. The rest of the line,
without blanks around it, is the version.
-/

namespace ShaderAssembly.Version

/-- The version that a line without its line end declares. -/
def declared? (line : List Char) : Option (List Char) :=
  match Text.trimStart line with
  | '#' :: rest =>
    match "version".toList.isPrefixOf? (Text.trimStart rest) with
    | some (c :: rest) => if Text.isBlank c then some (Text.trim rest) else none
    | _ => none
  | _ => none

/-- Whether a line without its line end declares a version. -/
def isDeclaration (line : List Char) : Bool := (declared? line).isSome

/-- The line that declares a version. -/
def declaration (version : String) : String := s!"#version {version}"

end ShaderAssembly.Version
