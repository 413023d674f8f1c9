import ShaderAssembly.OrderedMap
import ShaderAssembly.Sources.Provider

/-!
# Sources in memory

Files are kept in memory. Every file written gets a new revision number, so a file that is written
again has another revision even if its text is the same.

Edits can be scheduled for the moment right after a file is read: one edit for each successful
read of the file, in the order in which they were scheduled. The reader still gets the text from
before the edit. Reading can also be denied for single files; their revisions stay visible.
-/

namespace ShaderAssembly

/-- A file in memory. -/
structure MemoryFile where
  /-- The text. -/
  text : String
  /-- Which write, counted from one, it comes from. -/
  revision : Nat
  deriving DecidableEq, Repr

/-- A write that happens right after a file is read. -/
structure ScheduledWrite where
  /-- The file whose read it waits for. -/
  trigger : SourcePath
  /-- The file to be written. -/
  target : SourcePath
  /-- The text to be written. -/
  text : String
  deriving DecidableEq, Repr

/-- Files in memory and everything that decides how reads go. -/
structure MemorySources where
  /-- The files. -/
  files : OrderedMap SourcePath MemoryFile
  /-- How many writes there have been. -/
  writes : Nat
  /-- The files that may not be read. -/
  denied : List SourcePath
  /-- The writes to come, the oldest first. -/
  scheduled : List ScheduledWrite
  /-- How many reads there have been, failed ones included. -/
  reads : Nat
  deriving DecidableEq, Repr

namespace MemorySources

/-- No files. -/
def empty : MemorySources := ⟨.empty, 0, [], [], 0⟩

/-- Writes a file. -/
def write (sources : MemorySources) (path : SourcePath) (text : String) : MemorySources :=
  let revision := sources.writes + 1
  { sources with files := sources.files.insert path ⟨text, revision⟩, writes := revision }

/-- Removes a file. -/
def remove (sources : MemorySources) (path : SourcePath) : MemorySources :=
  { sources with files := sources.files.erase path }

/-- Denies reading a file. -/
def deny (sources : MemorySources) (path : SourcePath) : MemorySources :=
  if path ∈ sources.denied then sources else { sources with denied := path :: sources.denied }

/-- Allows reading a file again. -/
def allow (sources : MemorySources) (path : SourcePath) : MemorySources :=
  { sources with denied := sources.denied.filter (· ≠ path) }

/-- Schedules a write for the next read of a file that has none scheduled yet. -/
def schedule (sources : MemorySources) (write : ScheduledWrite) : MemorySources :=
  { sources with scheduled := sources.scheduled ++ [write] }

/-- Files with the given texts, written in the given order. -/
def ofFiles (files : List (SourcePath × String)) : MemorySources :=
  files.foldl (fun sources file => sources.write file.1 file.2) empty

/-- Does the first write that waits for a read of the given file. -/
def afterRead (sources : MemorySources) (path : SourcePath) : MemorySources :=
  match sources.scheduled.find? (·.trigger = path) with
  | none => sources
  | some due => { sources with scheduled := sources.scheduled.erase due }.write due.target due.text

/-- The file at a path; `asked` is how the path was spelled. -/
def file (asked path : SourcePath) : Action MemorySources ReadFailure MemoryFile := do
  match (← get).files.get? path with
  | some file => return file
  | none => throw (.missing asked)

/-- Reads a file. -/
def read (asked : SourcePath) : Action MemorySources ReadFailure String := do
  let path := SourcePath.rooted asked.text
  modify fun sources => { sources with reads := sources.reads + 1 }
  if path ∈ (← get).denied then throw ⟨.permissionDenied, "denied"⟩
  let found ← file asked path
  modify (·.afterRead path)
  return found.text

/-- The provider of files in memory. -/
def provider : Provider MemorySources where
  read := read
  revision asked := return (← file asked (SourcePath.rooted asked.text)).revision
  fileLimit sources := sources.files.size + sources.scheduled.length

end MemorySources

end ShaderAssembly
