import ShaderAssembly.IncludeGraph
import ShaderAssembly.Description
import ShaderAssembly.Dialect
import ShaderAssembly.Effect
import ShaderAssembly.Include.Expand
import ShaderAssembly.Linking

/-!
# Compiling shaders

A compile reads a file, expands its includes and links its stages. In a shader description the
includes of each code block are expanded, one block after the other; of an effect file the whole
text is expanded before it is read. All that was read is recorded, so that a later change of it
can be noticed.
-/

namespace ShaderAssembly

variable {σ : Type}

/-- A shader that has been read, with its include graph. -/
structure ParsedShader where
  /-- The shader, its includes expanded. -/
  shader : Shader
  /-- What was read. -/
  dependencies : IncludeGraph
  deriving DecidableEq, Repr

/-- Everything that a compile produces. -/
structure Compilation where
  /-- The shader, its includes expanded. -/
  shader : Shader
  /-- The compiled stages. -/
  stages : LinkedStages
  /-- What was read. -/
  dependencies : IncludeGraph
  deriving DecidableEq, Repr

/-- A way to compile: where files come from, and the settings. -/
structure Compiler (σ : Type) where
  /-- Where files come from. -/
  provider : Provider σ
  /-- The settings. -/
  settings : Settings

namespace Compiler

/-- Adds what an expansion has read to a graph. -/
def recordExpansion (graph : IncludeGraph) (expansion : Include.Expansion) :
    IncludeGraph :=
  (graph.addEdges expansion.edges).addTexts expansion.contents

/-- Expands the includes of a block. -/
def expandBlock (compiler : Compiler σ) (path : SourcePath) (graph : IncludeGraph)
    (block : CodeBlock) : Action σ Error (CodeBlock × IncludeGraph) := do
  let expansion ← Include.withOpen [path]
    (Include.expandText compiler.provider path block.body block.position.line)
  return (block.withExpansion expansion.source, recordExpansion graph expansion)

/-- Expands the includes of named blocks one after the other. -/
def expandEntries (compiler : Compiler σ) (path : SourcePath) (graph : IncludeGraph) :
    List (String × CodeBlock) → Action σ Error (List (String × CodeBlock) × IncludeGraph)
  | [] => return ([], graph)
  | (name, block) :: rest => do
    let (block, graph) ← compiler.expandBlock path graph block
    let (rest, graph) ← compiler.expandEntries path graph rest
    return ((name, block) :: rest, graph)

/-- Expands the includes of all blocks of a shader, the shared one first. -/
def expandBlocks (compiler : Compiler σ) (parsed : ParsedShader) :
    Action σ Error ParsedShader := do
  let path := parsed.shader.path
  let (shared?, graph) ← match parsed.shader.shared? with
    | none => pure (none, parsed.dependencies)
    | some block => do
      let (block, graph) ← compiler.expandBlock path parsed.dependencies block
      pure (some block, graph)
  let (blocks, graph) ← compiler.expandEntries path graph parsed.shader.blocks.entries
  return ⟨{ parsed.shader with shared?, blocks := ⟨blocks⟩ }, graph⟩

/-- Reads a shader description. -/
def parseDescription (compiler : Compiler σ) (path : SourcePath) :
    Action σ Error ParsedShader := do
  let text ← compiler.provider.readFile path
  let graph := (IncludeGraph.ofRoot path).addTexts [⟨path, text⟩]
  let shader ← Description.parse path text
  compiler.expandBlocks ⟨shader, graph⟩

/-- Reads an effect file. -/
def parseEffect (compiler : Compiler σ) (path : SourcePath) : Action σ Error ParsedShader := do
  let expansion ← Include.withOpen [] (Include.expandFile compiler.provider path)
  let shader ← Effect.parse path expansion.source
  return ⟨shader, recordExpansion (.ofRoot path) expansion⟩

/-- Reads a shader and expands all its includes. -/
def parse (compiler : Compiler σ) (root : String) : Action σ Error ParsedShader := do
  let path := SourcePath.rooted root
  let parsed ← match Dialect.ofPath path with
    | .description => compiler.parseDescription path
    | .effect => compiler.parseEffect path
  Action.record .debug s!"Parsed {parsed.shader.summary}"
  return parsed

/-- Compiles a shader. -/
def compile (compiler : Compiler σ) (root : String) : Action σ Error Compilation := do
  let parsed ← compiler.parse root
  let stages ← Linking.link compiler.settings parsed.shader
  let files := parsed.dependencies.dependencies.length
  Action.record .info
    s!"Compiled {parsed.shader.path} ({stages.length} stages, {files} files)"
  return ⟨parsed.shader, stages, parsed.dependencies⟩

/-- The include graph of a shader. -/
def includeGraph (compiler : Compiler σ) (root : String) : Action σ Error IncludeGraph := do
  return (← compiler.parse root).dependencies

end Compiler

end ShaderAssembly
