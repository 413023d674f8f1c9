import ShaderAssembly.ExpandedText
import ShaderAssembly.OrderedMap
import ShaderAssembly.Property
import ShaderAssembly.Stage

/-!
# Shaders

A shader is what a description or an effect file declares: editable properties, blocks of code,
and techniques, whose passes bind blocks to pipeline stages. Effect files also declare uniforms
and vertex streams, and give each stage the streams it reads and writes. Every table keeps the
order of declaration.
-/

namespace ShaderAssembly

/-- A block of shader code. -/
structure CodeBlock where
  /-- The name of the block. -/
  name : String
  /-- The code between the braces, exactly as written. -/
  body : String
  /-- Where the body starts, right after the opening brace. -/
  position : Position
  /-- The code with its includes expanded; the body itself until then. -/
  expanded : ExpandedText
  deriving DecidableEq, Repr

namespace CodeBlock

/-- The name of the block that belongs to every stage. No name in code is spelled like it. -/
def sharedName : String := "<shared>"

/-- A block that has just been read. -/
def ofBody (name body : String) (position : Position) : CodeBlock :=
  ⟨name, body, position, .verbatim body position.file position.line⟩

/-- The block with its code expanded. -/
def withExpansion (block : CodeBlock) (expanded : ExpandedText) : CodeBlock :=
  { block with expanded }

end CodeBlock

/-- A reference to a block. -/
structure BlockReference where
  /-- The name of the block. -/
  name : String
  /-- Where the reference stands. -/
  position : Position
  deriving DecidableEq, Repr

/-- Whether a stage reads or writes a vertex stream. -/
inductive Direction where
  | input
  | output
  deriving DecidableEq, Repr

/-- The keyword of a direction. -/
def Direction.keyword : Direction → String
  | .input => "in"
  | .output => "out"

/-- A vertex stream as a stage uses it. -/
structure StreamArgument where
  /-- Whether the stage reads or writes the stream. -/
  direction : Direction
  /-- The name of the stream. -/
  stream : String
  /-- The name its fields are grouped under; without one they stand alone. -/
  instance? : Option String
  /-- Where the name of the stream stands. -/
  position : Position
  deriving DecidableEq, Repr

/-- The streams of a stage. -/
structure StageStreams where
  /-- What the stage reads. -/
  input : StreamArgument
  /-- What the stage writes. -/
  output : StreamArgument
  deriving DecidableEq, Repr

/-- What a pass binds to a stage. -/
structure BoundStage where
  /-- The blocks whose code makes up the stage, in order. -/
  blocks : List BlockReference
  /-- The streams of the stage, where the dialect has them. -/
  interface? : Option StageStreams
  /-- Where the keyword of the stage stands. -/
  position : Position
  deriving DecidableEq, Repr

/-- A pass of a technique. -/
structure Pass where
  /-- The name of the pass, where the dialect has one. -/
  name? : Option String
  /-- The bound stages in written order. -/
  stages : OrderedMap Stage BoundStage
  /-- The annotations of the pass. -/
  annotations : OrderedMap String Literal
  /-- Where the keyword of the pass stands. -/
  position : Position
  deriving DecidableEq, Repr

/-- A technique. -/
structure Technique where
  /-- The name of the technique. -/
  name : String
  /-- Its passes in order. -/
  passes : List Pass
  /-- The annotations of the technique. -/
  annotations : OrderedMap String Literal
  /-- Where the keyword of the technique stands. -/
  position : Position
  deriving DecidableEq, Repr

/-- A uniform of an effect file. -/
structure Uniform where
  /-- The name in code. -/
  name : String
  /-- The type in code. -/
  type : String
  /-- What the engine binds to it; a uniform without one can be edited. -/
  semantic? : Option String
  /-- The written default. -/
  default? : Option Literal
  /-- The annotations of the uniform. -/
  annotations : OrderedMap String Literal
  /-- Where the name stands. -/
  position : Position
  deriving DecidableEq, Repr

/-- Whether stages declare the uniform. A texture is only reached through its sampler and has no
declaration of its own. -/
def Uniform.isDeclared (uniform : Uniform) : Bool :=
  uniform.type.toList.map Char.toLower != "texture2d".toList

/-- A field of a vertex stream. -/
structure StreamField where
  /-- The type in code. -/
  type : String
  /-- The name in code. -/
  name : String
  /-- What the engine binds to it. -/
  semantic : String
  deriving DecidableEq, Repr

/-- A vertex stream of an effect file. -/
structure AttributeStream where
  /-- The name of the stream. -/
  name : String
  /-- Its fields in order. -/
  fields : List StreamField
  /-- Where the name stands. -/
  position : Position
  deriving DecidableEq, Repr

/-- A shader. -/
structure Shader where
  /-- The file that declares it. -/
  path : SourcePath
  /-- What users can edit. -/
  properties : OrderedMap String Property
  /-- The code that every stage starts with. -/
  shared? : Option CodeBlock
  /-- The named blocks of code. -/
  blocks : OrderedMap String CodeBlock
  /-- The techniques. -/
  techniques : OrderedMap String Technique
  /-- The uniforms of an effect file. -/
  uniforms : OrderedMap String Uniform
  /-- The vertex streams of an effect file. -/
  streams : OrderedMap String AttributeStream
  deriving DecidableEq, Repr

namespace Shader

/-- A shader that declares nothing yet. -/
def empty (path : SourcePath) : Shader := ⟨path, .empty, none, .empty, .empty, .empty, .empty⟩

/-- All blocks, the shared one first. -/
def allBlocks (shader : Shader) : List CodeBlock :=
  shader.shared?.toList ++ shader.blocks.values

/-- A summary of the shader for people. -/
def summary (shader : Shader) : String :=
  s!"{shader.path} ({shader.properties.size} properties, {shader.allBlocks.length} blocks, " ++
    s!"{shader.techniques.size} techniques)"

end Shader

/-! ### Moving positions

A file that is read after its includes are expanded has positions in the expanded text. They are
moved to the files the lines came from by applying one function everywhere. -/

/-- Moves the position of a reference. -/
def BlockReference.mapPosition (f : Position → Position) (reference : BlockReference) :
    BlockReference :=
  { reference with position := f reference.position }

/-- Moves the position of a stage argument. -/
def StreamArgument.mapPosition (f : Position → Position) (argument : StreamArgument) :
    StreamArgument :=
  { argument with position := f argument.position }

/-- Moves the positions of both arguments of a stage. -/
def StageStreams.mapPosition (f : Position → Position) (interface : StageStreams) :
    StageStreams :=
  ⟨interface.input.mapPosition f, interface.output.mapPosition f⟩

/-- Moves all positions of a binding. -/
def BoundStage.mapPosition (f : Position → Position) (binding : BoundStage) : BoundStage :=
  ⟨binding.blocks.map (·.mapPosition f), binding.interface?.map (·.mapPosition f),
    f binding.position⟩

/-- Moves all positions of a pass. -/
def Pass.mapPosition (f : Position → Position) (pass : Pass) : Pass :=
  { pass with
    stages := pass.stages.mapValues (·.mapPosition f)
    position := f pass.position }

/-- Moves all positions of a technique. -/
def Technique.mapPosition (f : Position → Position) (technique : Technique) : Technique :=
  { technique with
    passes := technique.passes.map (·.mapPosition f)
    position := f technique.position }

/-- Moves the position of a uniform. -/
def Uniform.mapPosition (f : Position → Position) (uniform : Uniform) : Uniform :=
  { uniform with position := f uniform.position }

/-- Moves the position of a vertex stream. -/
def AttributeStream.mapPosition (f : Position → Position) (stream : AttributeStream) :
    AttributeStream :=
  { stream with position := f stream.position }

/-- Moves the position of a property. -/
def Property.mapPosition (f : Position → Position) (property : Property) : Property :=
  { property with position := f property.position }

end ShaderAssembly
