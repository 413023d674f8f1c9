import ShaderAssembly.Compiler
import ShaderAssembly.Numbered

/-!
# Kept compilations

A compilation is kept under the file it was made from. It is given out again as long as every file
it was made from still reads as the text that was used, so an edit is noticed without anyone
telling. Forgetting a file only saves the reading.
-/

namespace ShaderAssembly

/-- Compilations by the rooted paths they were made from. -/
structure CompilationCache where
  /-- The kept compilations. -/
  entries : OrderedMap SourcePath (Numbered Compilation)
  deriving DecidableEq, Repr

/-- The state of a provider together with kept compilations. -/
structure Keeping (σ : Type) where
  /-- The state of the provider, and the numbers of compilations. -/
  sources : Numbering σ
  /-- The kept compilations. -/
  cache : CompilationCache
  deriving DecidableEq, Repr

namespace CompilationCache

variable {σ ε α : Type}

/-- Nothing kept. -/
def empty : CompilationCache := ⟨.empty⟩

/-- How many compilations are kept. -/
def size (cache : CompilationCache) : Nat := cache.entries.size

/-- Whether a compilation was made from a file. -/
def uses (compilation : Compilation) (path : SourcePath) : Bool :=
  compilation.dependencies.contents.any fun file => file.path.same path

/-- Drops the compilations that were made from a file. -/
def forget (cache : CompilationCache) (path : String) : CompilationCache :=
  ⟨⟨cache.entries.entries.filter fun entry =>
    !uses entry.2.value (SourcePath.rooted path)⟩⟩

/-- Drops the compilations that were made from a file, and says how many these were. -/
def invalidate (cache : CompilationCache) (path : String) : Nat × CompilationCache :=
  let left := cache.forget path
  (cache.size - left.size, left)

/-- Keeps a compilation. -/
def keep (cache : CompilationCache) (path : SourcePath) (compilation : Numbered Compilation) :
    CompilationCache := ⟨cache.entries.insert path compilation⟩

/-- Whether all of some files read as the given texts. Reading stops at the first that does
not. -/
def allRead (provider : Provider σ) : List Include.FileText → Action σ ε Bool
  | [] => return true
  | file :: rest => do
    match ← (provider.read file.path).attempt with
    | .ok text => if text = file.text then allRead provider rest else return false
    | .error _ => return false

/-- Whether the files that a compilation was made from still read as they did. -/
def isCurrent (provider : Provider σ) (compilation : Compilation) : Action σ ε Bool :=
  allRead provider compilation.dependencies.contents

/-- Runs a computation on the state of the provider. -/
def onSources (action : Action (Numbering σ) ε α) : Action (Keeping σ) ε α :=
  action.focus Keeping.sources fun sources keeping => { keeping with sources }

/-- The kept compilation of a file, if there is one that is current. -/
def current? (compiler : Compiler σ) (path : SourcePath) :
    Action (Keeping σ) ε (Option (Numbered Compilation)) := do
  match (← get).cache.entries.get? path with
  | none => return none
  | some kept =>
    let isCurrent ← onSources (Numbering.onInner (isCurrent compiler.provider kept.value))
    return if isCurrent then some kept else none

/-- Compiles a file and keeps the compilation. -/
def renew (compiler : Compiler σ) (path : SourcePath) :
    Action (Keeping σ) Error (Numbered Compilation) := do
  let compilation ← onSources do
    Numbering.issue (← Numbering.onInner (compiler.compile path.text))
  modify fun keeping => { keeping with cache := keeping.cache.keep path compilation }
  return compilation

/-- The compilation of a file: the kept one if it is current, else a new one. -/
def obtain (compiler : Compiler σ) (root : String) :
    Action (Keeping σ) Error (Numbered Compilation) := do
  let path := SourcePath.rooted root
  match ← current? compiler path with
  | some kept =>
    Action.record .debug s!"Cache hit for {path}"
    return kept
  | none =>
    Action.record .debug s!"Cache miss for {path}"
    renew compiler path

end CompilationCache

end ShaderAssembly
