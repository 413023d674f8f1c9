import ShaderAssembly.Error
import ShaderAssembly.Journal

/-!
# Providers of source files

A provider gives the text of a file and a revision that changes whenever the text does. Paths are
rooted. A provider has a state of its own, so that what is read may depend on what was read
before; one whose files stay as they are ignores that state.
-/

namespace ShaderAssembly

/-- Where the text of source files comes from. -/
structure Provider (σ : Type) where
  /-- The text of a file. -/
  read : SourcePath → Action σ ReadFailure String
  /-- The revision of a file. -/
  revision : SourcePath → Action σ ReadFailure Nat
  /-- How many files that can be read are reached from a file by include lines, at the most. This
  is what bounds how deep includes are followed. -/
  fileLimit : σ → Nat

namespace Provider

variable {σ : Type}

/-- Reads a file; a failure names the file. -/
def readFile (provider : Provider σ) (path : SourcePath) : Action σ Error String :=
  (provider.read path).mapError (.unreadable path)

/-- The provider on a part of a larger state. -/
def within {τ : Type} (provider : Provider σ) (part : τ → σ) (replace : σ → τ → τ) :
    Provider τ where
  read path := (provider.read path).focus part replace
  revision path := (provider.revision path).focus part replace
  fileLimit whole := provider.fileLimit (part whole)

end Provider

/-- The failure of reading a file that does not exist. -/
def ReadFailure.missing (path : SourcePath) : ReadFailure := ⟨.notFound, s!"no such file: {path}"⟩

end ShaderAssembly
