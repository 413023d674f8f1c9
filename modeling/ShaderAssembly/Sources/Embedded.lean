import ShaderAssembly.OrderedMap
import ShaderAssembly.Sources.Provider

/-!
# Embedded sources

Files that are part of a program have fixed names, and a path is looked up as exactly that name.
They never change, so all of them keep the same revision.
-/

namespace ShaderAssembly

/-- Files by name; contents that are no text are `none`. -/
abbrev EmbeddedSources : Type := OrderedMap String (Option String)

namespace EmbeddedSources

/-- The contents of the file with a name. -/
def contents (path : SourcePath) : Action EmbeddedSources ReadFailure (Option String) := do
  match (← get).get? path.text with
  | some contents => return contents
  | none => throw (.missing path)

/-- The text of the file with a name. -/
def read (path : SourcePath) : Action EmbeddedSources ReadFailure String := do
  match ← contents path with
  | some text => return text
  | none => throw ⟨.invalidData, s!"invalid UTF-8 in {path}"⟩

/-- The provider of embedded files. -/
def provider : Provider EmbeddedSources where
  read := read
  revision path := do
    discard (contents path)
    return 0
  fileLimit sources := sources.size

end EmbeddedSources

end ShaderAssembly
