import ShaderAssembly.OrderedMap
import ShaderAssembly.Sources.Provider

/-!
# Kept source files

The texts that another provider gives are kept. A kept text is given again as long as the other
provider still reports the revision that the file had before its text was read; so a change that
happens during the read is noticed at the next one.
-/

namespace ShaderAssembly

/-- A file as it was read. -/
structure KeptFile where
  /-- The rooted path. -/
  path : SourcePath
  /-- The text. -/
  text : String
  /-- The revision the file had just before it was read. -/
  revision : Nat
  deriving DecidableEq, Repr

/-- Kept files, and the state of the provider they come from. -/
structure CachedSources (σ : Type) where
  /-- The kept files. -/
  files : OrderedMap SourcePath KeptFile
  /-- The state of the other provider. -/
  inner : σ
  deriving Repr

namespace CachedSources

variable {σ ε α : Type}

/-- Nothing kept yet. -/
def ofInner (inner : σ) : CachedSources σ := ⟨.empty, inner⟩

/-- Runs a computation on the state of the other provider. -/
def onInner (action : Action σ ε α) : Action (CachedSources σ) ε α :=
  action.focus CachedSources.inner fun inner cached => { cached with inner }

/-- Runs a computation that keeps files, with none kept at its start. -/
def during (action : Action (CachedSources σ) ε α) : Action σ ε α := fun inner =>
  let (traced, cached) := action (ofInner inner)
  (traced, cached.inner)

/-- Keeps a file. -/
def keep (file : KeptFile) : Action (CachedSources σ) ε Unit :=
  modify fun cached => { cached with files := cached.files.insert file.path file }

/-- Reads a file from the other provider and keeps it. -/
def load (provider : Provider σ) (path : SourcePath) (revision : Nat) :
    Action (CachedSources σ) ReadFailure KeptFile := do
  Action.record .debug s!"Reading {path}"
  let file := ⟨path, ← onInner (provider.read path), revision⟩
  keep file
  return file

/-- The file at a path: the kept one if it is still current. -/
def file (provider : Provider σ) (asked : SourcePath) :
    Action (CachedSources σ) ReadFailure KeptFile := do
  let path := SourcePath.rooted asked.text
  let revision ← onInner (provider.revision path)
  match ((← get).files.get? path).filter (·.revision = revision) with
  | some file => return file
  | none => load provider path revision

/-- Keeps the text of a path no longer. -/
def forget (cached : CachedSources σ) (path : SourcePath) : CachedSources σ :=
  { cached with files := cached.files.erase (SourcePath.rooted path.text) }

/-- The provider that keeps what another provider reads. -/
def provider (inner : Provider σ) : Provider (CachedSources σ) where
  read path := return (← file inner path).text
  revision path := onInner (inner.revision path)
  fileLimit cached := inner.fileLimit cached.inner

end CachedSources

end ShaderAssembly
