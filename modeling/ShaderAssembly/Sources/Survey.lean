import ShaderAssembly.OrderedMap
import ShaderAssembly.Sources.FileSystem

/-!
# Surveys of a file system

A survey holds what is known of a file system that cannot be looked at in between. A look at an
unknown path fails, and the survey notes that path; once what stands there has been added, the
computation can be run again and gets further.
-/

namespace ShaderAssembly

/-- What is known of a file system. -/
structure Survey where
  /-- What stands at the known paths. -/
  known : OrderedMap String (Except ReadFailure FileSystemEntry)
  /-- The last unknown path that was looked at. -/
  wanted? : Option String

namespace Survey

/-- Nothing known. -/
def empty : Survey := ⟨.empty, none⟩

/-- Adds what stands at a path, which is then no longer wanted. -/
def add (survey : Survey) (path : String) (entry : Except ReadFailure FileSystemEntry) : Survey :=
  ⟨survey.known.insert path entry, none⟩

/-- Looks at a path. -/
def look (path : String) : Action Survey ReadFailure FileSystemEntry := do
  match (← get).known.get? path with
  | some (.ok entry) => return entry
  | some (.error failure) => throw failure
  | none =>
    modify fun survey => { survey with wanted? := some path }
    throw .noEntry

/-- What is known of a file system, as a file system. -/
def fileSystem : FileSystem Survey where
  look := look
  fileLimit survey := survey.known.size

end Survey

end ShaderAssembly
