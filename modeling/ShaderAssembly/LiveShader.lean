import ShaderAssembly.Compiler
import ShaderAssembly.Numbered

/-!
# Shaders that follow their files

A live shader has an active compilation, which only a complete compile replaces. A refresh takes
the active compilation, compiles, and then replaces the compilation it took; if another refresh was
faster, its own result is dropped.
-/

namespace ShaderAssembly

/-- A shader with the compilation in use. -/
structure LiveShader where
  /-- The rooted path of the shader. -/
  root : SourcePath
  /-- The compilation in use. -/
  active : Numbered Compilation
  deriving DecidableEq, Repr

/-- What news of changed files did to a live shader. -/
inductive Refresh where
  /-- No file of the active compilation has changed. -/
  | unaffected
  /-- A new compilation is active. -/
  | replaced (next : Numbered Compilation)
  /-- Another refresh was faster. -/
  | superseded
  /-- The shader does not compile any more, and the active compilation stays. -/
  | failed (error : Error)
  deriving DecidableEq, Repr

namespace LiveShader

variable {σ ε : Type}

/-- Compiles a file to a new compilation. -/
def build (compiler : Compiler σ) (path : SourcePath) :
    Action (Numbering σ) Error (Numbered Compilation) := do
  Numbering.issue (← Numbering.onInner (compiler.compile path.text))

/-- Compiles a shader for the first time. -/
def load (compiler : Compiler σ) (root : String) : Action (Numbering σ) Error LiveShader := do
  let path := SourcePath.rooted root
  return ⟨path, ← build compiler path⟩

/-- Whether a change of the given files is one of the active compilation. -/
def isAffected (shader : LiveShader) (changed : List SourcePath) : Bool :=
  shader.active.value.dependencies.reachesAny changed

/-- Makes a compilation the active one, if the expected one still is. -/
def replace (shader : LiveShader) (expected next : Numbered Compilation) :
    Traced ε (Refresh × LiveShader) :=
  if shader.active.isSame expected then do
    Traced.record .info s!"Reloaded {shader.root}"
    return (.replaced next, { shader with active := next })
  else return (.superseded, shader)

/-- Compiles a shader again after the given files have changed. -/
def refresh (shader : LiveShader) (compiler : Compiler σ) (changed : List SourcePath) :
    Action (Numbering σ) ε (Refresh × LiveShader) := do
  if shader.isAffected changed then
    match ← (build compiler shader.root).attempt with
    | .ok next => liftM (shader.replace shader.active next : Traced ε (Refresh × LiveShader))
    | .error error => do
      let message := error.message
      Action.record .error
        s!"Reloading {shader.root} failed, keeping the previous version: {message}"
      return (.failed error, shader)
  else return (.unaffected, shader)

end LiveShader

end ShaderAssembly
