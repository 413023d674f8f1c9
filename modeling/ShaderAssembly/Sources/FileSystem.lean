import ShaderAssembly.Sources.Provider

/-!
# File systems

A file system says what stands at a path. A directory of it becomes a provider: a rooted path is
taken as a path below that directory. As a rooted path has no `..`, it never leads out of it.
-/

namespace ShaderAssembly

/-- What stands at a path. -/
inductive FileSystemEntry where
  /-- A file; contents that are no text are `none`. -/
  | file (contents : Option String)
  /-- A directory. -/
  | directory
  deriving DecidableEq, Repr

/-- A way to look at what stands at a path. Looking may take note of the path. -/
structure FileSystem (σ : Type) where
  /-- What stands at a path. -/
  look : String → Action σ ReadFailure FileSystemEntry
  /-- How many files there are at the most. -/
  fileLimit : σ → Nat

namespace ReadFailure

/-- Nothing stands at the path. -/
def noEntry : ReadFailure := ⟨.notFound, "No such file or directory (os error 2)"⟩

/-- The path goes through a file. -/
def noDirectory : ReadFailure := ⟨.notDirectory, "Not a directory (os error 20)"⟩

/-- The path leads to a directory. -/
def directory : ReadFailure := ⟨.isDirectory, "Is a directory (os error 21)"⟩

/-- The path, or a name in it, has too many bytes. -/
def tooLong : ReadFailure := ⟨.invalidName, "File name too long (os error 36)"⟩

/-- The path has a null character. -/
def nullCharacter : ReadFailure := ⟨.invalidPath, "file name contained an unexpected NUL byte"⟩

/-- The path leads to a file that holds no text. -/
def noText : ReadFailure := ⟨.invalidData, "stream did not contain valid UTF-8"⟩

end ReadFailure

namespace FileSystem

variable {σ : Type}

/-- How many bytes a path can have. -/
def pathLimit : Nat := 4095

/-- How many bytes a name in a path can have. -/
def nameLimit : Nat := 255

/-- Why a path cannot be looked at, whatever stands there. -/
def pathFailure? (path : String) : Option ReadFailure :=
  if '\x00' ∈ path.toList then some .nullCharacter
  else if pathLimit < path.utf8ByteSize then some .tooLong
  else none

/-- The path of a file below a directory: the directory, a separator unless it is empty or ends in
one, and the names of the rooted path. -/
def below (directory : String) (path : SourcePath) : String :=
  let names := String.ofList (Text.join '/' path.names)
  if directory.toList.getLast?.getD '/' = '/' then directory ++ names
  else directory ++ "/" ++ names

/-- The text that stands at a path. -/
def readText (system : FileSystem σ) (path : String) : Action σ ReadFailure String := do
  match ← system.look path with
  | .file (some text) => return text
  | .file none => throw .noText
  | .directory => throw .directory

/-- The provider of the files below a directory. They are taken not to change while it is used. -/
def provider (system : FileSystem σ) (directory : String) : Provider σ where
  read path := system.readText (below directory path)
  revision path := do
    discard (system.look (below directory path))
    return 0
  fileLimit := system.fileLimit

end FileSystem

end ShaderAssembly
