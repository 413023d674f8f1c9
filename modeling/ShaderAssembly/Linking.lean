import ShaderAssembly.LinkedStage
import ShaderAssembly.Journal
import ShaderAssembly.Settings
import ShaderAssembly.Shader
import ShaderAssembly.Version

/-!
# Linking

Every stage that a pass binds becomes one source: a preamble of generated lines, then the code of
the shared block and of the blocks the stage refers to, in order. The preamble declares the
version, which is hoisted out of the code if the code declares one, and then macros, uniforms and
the streams of the stage. Before a line of code that does not follow the line before it in the
same file stands a marker, if the settings ask for markers.
-/

namespace ShaderAssembly.Linking

/-! ### References -/

/-- The block that a reference names. -/
def resolveBlock (shader : Shader) (reference : BlockReference) : Except Error CodeBlock :=
  match shader.blocks.get? reference.name with
  | some block => .ok block
  | none => .error (.unresolvedBlock reference.name reference.position)

/-- The stream that an argument names. -/
def resolveStream (shader : Shader) (argument : StreamArgument) : Except Error AttributeStream :=
  match shader.streams.get? argument.stream with
  | some stream => .ok stream
  | none => .error (.unresolvedStream argument.stream argument.position)

/-! ### The preamble -/

/-- The lines that declare the fields of a stream for a stage: one by one, or grouped under the
name of an instance. -/
def streamLines (argument : StreamArgument) (stream : AttributeStream) : List String :=
  let keyword := argument.direction.keyword
  match argument.instance? with
  | none => stream.fields.map fun field => s!"{keyword} {field.type} {field.name};"
  | some name =>
    let fields := stream.fields.map fun field => s!"    {field.type} {field.name};"
    (s!"{keyword} {argument.stream} " ++ r"{") :: fields ++ [r"} " ++ s!"{name};"]

/-- The lines that declare the streams of a stage, those it reads first. -/
def interfaceLines (shader : Shader) (interface : StageStreams) :
    Except Error (List String) := do
  let input ← resolveStream shader interface.input
  let output ← resolveStream shader interface.output
  return streamLines interface.input input ++ streamLines interface.output output

/-- The first version that the code of some blocks declares. -/
def declaredVersion? (blocks : List CodeBlock) : Option String :=
  (blocks.flatMap (·.expanded.lines)).findSome? fun line =>
    (Version.declared? (Text.bareLine line)).map String.ofList

/-- The line that allows markers to name files. -/
def quotedMarkersExtension : String :=
  "#extension GL_GOOGLE_cpp_style_line_directive : require"

/-- The generated lines of a stage, given those that declare its streams. -/
def preamble (settings : Settings) (shader : Shader) (blocks : List CodeBlock)
    (interface : List String) : List String :=
  let version := (declaredVersion? blocks).getD settings.defaultVersion
  let extension := if settings.lineMarkers = .quoted then [quotedMarkersExtension] else []
  let defines := settings.defines.entries.map fun entry => s!"#define {entry.1} {entry.2}"
  let declared := shader.uniforms.values.filter Uniform.isDeclared
  let uniforms := declared.map fun uniform => s!"uniform {uniform.type} {uniform.name};"
  Version.declaration version :: (extension ++ defines ++ uniforms ++ interface)

/-! ### The code -/

/-- A line of a block with its origin. -/
structure CodeLine where
  /-- The line, with its line feed if it has one. -/
  text : List Char
  /-- The name of the block. -/
  block : String
  /-- Where the line comes from. -/
  origin? : Option Origin
  deriving DecidableEq, Repr

/-- The lines of a block. -/
def codeLines (block : CodeBlock) : List CodeLine :=
  block.expanded.lines.zipIdx.map fun (text, index) =>
    ⟨text, block.name, block.expanded.locate (index + 1)⟩

/-- The text of a line of code in a stage: a version declaration is left empty, as the version
stands on the first line of the stage already. -/
def keptText (line : List Char) : List Char :=
  if Version.isDeclaration (Text.dropLineEnd line) then [] else line

/-- Adds a file to those that markers refer to, if it is not among them. -/
def addFile (files : List SourcePath) (file : SourcePath) : List SourcePath :=
  if file ∈ files then files else files ++ [file]

/-- The marker before a line with the given origin, and the files markers refer to after it. -/
def marker (style : LineMarkers) (files : List SourcePath) (origin : Origin) :
    List StageLine × List SourcePath :=
  match style with
  | .none => ([], files)
  | .numeric =>
    let files := addFile files origin.file
    ([.marker s!"#line {origin.line} {files.idxOf origin.file}".toList], files)
  | .quoted => ([.marker s!"#line {origin.line} \"{origin.file}\"".toList], files)

/-- The origin of the line after one with the given origin. -/
def following (origin : Origin) : Origin := { origin with line := origin.line + 1 }

/-- Writes lines of code with the markers they need. `expected` is where a line without a marker
would come from. -/
def writeCode (style : LineMarkers) (expected : Option Origin) (files : List SourcePath) :
    List CodeLine → List StageLine × List SourcePath
  | [] => ([], files)
  | line :: rest =>
    let (markers, files) :=
      match line.origin? with
      | some origin => if expected = some origin then ([], files) else marker style files origin
      | none => ([], files)
    let (lines, files) := writeCode style (line.origin?.map following) files rest
    (markers ++ .code (keptText line.text) line.block line.origin? :: lines, files)

/-! ### Stages -/

/-- The source of a stage made of the given blocks. -/
def assemble (settings : Settings) (shader : Shader) (blocks : List CodeBlock)
    (interface : List String) : LinkedStage :=
  let generated := (preamble settings shader blocks interface).map fun line =>
    StageLine.generated line.toList
  let (code, files) := writeCode settings.lineMarkers none [] (blocks.flatMap codeLines)
  ⟨generated ++ code, files, blocks.map CodeBlock.name⟩

/-- What a stage is put together from. -/
structure StageParts where
  /-- The blocks, the shared one first. -/
  blocks : List CodeBlock
  /-- The lines that declare the streams. -/
  interface : List String

/-- What a stage that is bound is put together from. References to blocks are followed before those
to streams. -/
def stageParts (shader : Shader) (binding : BoundStage) : Except Error StageParts := do
  let referenced ← binding.blocks.mapM (resolveBlock shader)
  let interface ← match binding.interface? with
    | none => pure []
    | some interface => interfaceLines shader interface
  return ⟨shader.shared?.toList ++ referenced, interface⟩

/-- A stage that is put together from its parts. -/
def StageParts.assemble (parts : StageParts) (settings : Settings) (shader : Shader) :
    LinkedStage :=
  Linking.assemble settings shader parts.blocks parts.interface

/-- Links one stage. -/
def linkStage (settings : Settings) (shader : Shader) (binding : BoundStage) :
    Except Error LinkedStage := do
  let parts ← stageParts shader binding
  return parts.assemble settings shader

/-- The stages that a shader binds, in the order of techniques, passes and the pipeline. -/
def boundStages (shader : Shader) : List (StageKey × BoundStage) :=
  shader.techniques.values.flatMap fun technique =>
    technique.passes.zipIdx.flatMap fun (pass, index) =>
      Stage.all.filterMap fun slot =>
        (pass.stages.get? slot).map fun binding => (⟨technique.name, index, slot⟩, binding)

/-- Links one stage and records that. -/
def linkBound (settings : Settings) (shader : Shader) (bound : StageKey × BoundStage) :
    Traced Error (StageKey × LinkedStage) := do
  let stage ← linkStage settings shader bound.2
  let blocks := String.intercalate ", " (stage.blocks.map (Text.quoted .plain))
  Traced.record .debug s!"Linked {bound.1.text} from [{blocks}]"
  return (bound.1, stage)

/-- Links all stages of a shader. -/
def link (settings : Settings) (shader : Shader) : Traced Error LinkedStages :=
  (boundStages shader).mapM (linkBound settings shader)

end ShaderAssembly.Linking
