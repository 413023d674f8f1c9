import ShaderAssembly.Include.Directive
import ShaderAssembly.Include.Expansion
import ShaderAssembly.Sources.Provider

/-!
# Expanding includes

Each include line is replaced by the expansion of the file it names; all other lines are kept. All
files are expanded into one text, and an included file has to end its last line there before the
file that includes it goes on. A file may be included any number of times, but not while it is being
expanded itself.

The files that are being expanded form a chain. A file is put on the chain before its lines are
expanded and taken off afterwards, whether that fails or not. As no file is on the chain twice,
the chain is never longer than the number of files that can be reached, which bounds the depth of
the recursion.
-/

namespace ShaderAssembly.Include

variable {σ α : Type}

/-- The state of an expansion: that of the provider, and the chain of open files. -/
structure Expanding (σ : Type) where
  /-- The state of the provider. -/
  sources : σ
  /-- The files that are being expanded, the outermost first. -/
  openFiles : List SourcePath

namespace Expanding

/-- Runs a computation on the provider's state. -/
def onSources (action : Action σ Error α) : Action (Expanding σ) Error α :=
  action.focus Expanding.sources fun sources expanding => { expanding with sources }

/-- Runs a computation while a file is open. -/
def during (file : SourcePath) (action : Action (Expanding σ) Error α) :
    Action (Expanding σ) Error α := fun expanding =>
  let (traced, after) := action { expanding with openFiles := expanding.openFiles ++ [file] }
  (traced, { after with openFiles := after.openFiles.dropLast })

/-- Fails if a file is open already. The error shows the chain from that file on, with the file
at its end again. -/
def refuseOpen (file : SourcePath) (position : Position) : Action (Expanding σ) Error Unit := do
  let chain := (← get).openFiles.dropWhile (· ≠ file)
  if chain ≠ [] then throw (.cyclicInclude (chain ++ [file]) position)

end Expanding

/-- Reads a file that is included at a position. That the file does not exist is an error about
the position, any other failure one about the file. -/
def readIncluded (provider : Provider σ) (file : SourcePath) (position : Position) :
    Action σ Error String :=
  (provider.read file).mapError fun failure =>
    if failure.kind = .notFound then .missingInclude file position
    else .unreadable file failure

/-- Expands the lines of a text in a file, the first of them having the given number, behind what
was put out before. How an include line expands depends on its target, where it stands and what was
put out. -/
def expandLines
    (expandTarget : SourcePath → String → Position → Expansion →
      Action (Expanding σ) Error Expansion)
    (file : SourcePath) : Nat → List (List Char) → Expansion → Action (Expanding σ) Error Expansion
  | _, [], out => return out
  | number, line :: rest, out => do
    let position : Position := ⟨file, number, Directive.column line⟩
    let out ← match Directive.ofLine line with
      | .none => pure (out.pushLine line file number)
      | .malformed =>
        throw (.unexpected "a quoted include path" (String.ofList (Text.trim line)) position)
      | .target path => expandTarget file path position out
    expandLines expandTarget file (number + 1) rest out

/-- Expands the file that an include line names behind what was put out before, going at most
`depth` files deep, and ends its last line. -/
def expandTarget (provider : Provider σ) :
    (depth : Nat) → SourcePath → String → Position → Expansion →
      Action (Expanding σ) Error Expansion
  | 0, _, _, position, _ => throw (.nestedTooDeeply position)
  | depth + 1, includer, target, position, out => do
    let included := includer.resolveInclude target
    Expanding.refuseOpen included position
    let text ← Expanding.onSources (readIncluded provider included position)
    Action.record .trace s!"{position}: including {included}"
    let out := out.pushInclude ⟨includer, included, position.line⟩ text
    let out ← Expanding.during included
      (expandLines (expandTarget provider depth) included 1 (Text.lines text.toList) out)
    return out.terminateLine

/-- Expands the includes of a text that stands in a file from the given line on. -/
def expandText (provider : Provider σ) (file : SourcePath) (text : String) (firstLine : Nat) :
    Action (Expanding σ) Error Expansion := do
  let depth := provider.fileLimit (← get).sources + 1
  expandLines (expandTarget provider depth) file firstLine (Text.lines text.toList) .empty

/-- Reads a file and expands its includes. -/
def expandFile (provider : Provider σ) (path : SourcePath) :
    Action (Expanding σ) Error Expansion := do
  let text ← Expanding.onSources (provider.readFile path)
  let inner ← Expanding.during path (expandText provider path text 1)
  return { inner with contents := ⟨path, text⟩ :: inner.contents }

/-- Runs an expansion with the given files open, on the state of the provider. -/
def withOpen (openFiles : List SourcePath) (action : Action (Expanding σ) Error α) :
    Action σ Error α := fun sources =>
  let (traced, after) := action ⟨sources, openFiles⟩
  (traced, after.sources)

end ShaderAssembly.Include
