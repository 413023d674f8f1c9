import ShaderAssembly.SourcePath

/-!
# Dialects

A file is written in one of two dialects, which the extension of its name tells apart.
-/

namespace ShaderAssembly

/-- The dialect a file is written in. -/
inductive Dialect where
  /-- A shader description: one `Shader` with properties, code blocks and techniques. -/
  | description
  /-- An effect file: uniforms, vertex streams, code blocks and techniques in any order. -/
  | effect
  deriving DecidableEq, Repr, Inhabited

namespace Dialect

/-- The extension of effect files. -/
def effectExtension : List Char := "ogsfx".toList

/-- The dialect of a file with the given path. -/
def ofPath (path : SourcePath) : Dialect :=
  if path.extension? = some effectExtension then .effect else .description

end Dialect

end ShaderAssembly
