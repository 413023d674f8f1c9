import ShaderAssembly.Phrase
import ShaderAssembly.Token.Scan

/-!
# Effect files

An effect file declares uniforms, vertex streams, code blocks and techniques, in any order:

```text
uniform float gRough : Semantic < string UIName = "Roughness"; > = 0.5;
attribute appdata { vec3 position : POSITION; };
GLSLShader Name { code }
technique Main { pass p0 { VertexShader(in appdata, out v2f vsout) = { A, B }; } }
```

The includes of the whole file are expanded before it is read, because included files may declare
things too. So positions are first those in the expanded text; at the end they are moved to the
files that the lines came from, in the shader as well as in an error.

A uniform that the engine does not bind and whose type is that of a property can be edited. Its
annotations say how.
-/

namespace ShaderAssembly.Effect

open ShaderAssembly.Parser

/-- What an annotation says about the control that edits a uniform. -/
inductive Control where
  /-- A slider between two values. -/
  | range (least greatest : BinaryValue)
  /-- A color picker. -/
  | color
  deriving DecidableEq, Repr

/-- An annotation as written. -/
structure AnnotationEntry where
  /-- The name. -/
  name : String
  /-- The text in brackets after the name. -/
  description? : Option String
  /-- The control after the text. -/
  control? : Option Control
  /-- The value after the equals sign. -/
  value? : Option Literal
  /-- Where the name stands. -/
  position : Position
  deriving DecidableEq, Repr

namespace AnnotationEntry

/-- What the shader keeps of an annotation: its value, or else its description. -/
def literal? (entry : AnnotationEntry) : Option Literal :=
  entry.value? <|> entry.description?.map .string

/-- The annotations that a shader keeps. -/
def table (annotations : List AnnotationEntry) : OrderedMap String Literal :=
  .ofList (annotations.filterMap fun entry =>
    entry.literal?.map fun literal => (entry.name, literal))

/-- The names of the annotations that mean something. -/
def knownNames : List String :=
  ["UIName", "UIMin", "UIMax", "UIGroup", "UIWidget", "UIOrder", "ResourceName"]

/-- The value of the first annotation of a name. -/
def valueOf? (annotations : List AnnotationEntry) (name : String) : Option Literal :=
  (annotations.find? (·.name = name)).bind value?

/-- The text of the first annotation of a name. -/
def textOf? (annotations : List AnnotationEntry) (name : String) : Option String :=
  (valueOf? annotations name).bind Literal.string?

/-- The number of the first annotation of a name, in the 32-bit format. -/
def boundOf? (annotations : List AnnotationEntry) (name : String) : Option BinaryValue :=
  ((valueOf? annotations name).bind Literal.number?).map BinaryFormat.binary32.convert

/-- Whether an annotation asks for a color picker. -/
def asksForColor (entry : AnnotationEntry) : Bool :=
  entry.control? = some .color ||
    (entry.name = "UIWidget" &&
      entry.value?.bind Literal.string? = some "Color")

/-- The ends of the slider an annotation asks for. -/
def slider? (entry : AnnotationEntry) : Option (BinaryValue × BinaryValue) :=
  match entry.control? with
  | some (.range least greatest) => some (least, greatest)
  | _ => none

end AnnotationEntry

/-- What has been read of an effect file. -/
structure Draft where
  /-- The shader so far. -/
  shader : Shader
  /-- The annotations of each uniform. -/
  annotations : OrderedMap String (List AnnotationEntry)
  deriving DecidableEq, Repr

/-- Code blocks stand outside of all braces and start with `GLSLShader`. -/
def blockRule : BlockRule := ⟨"GLSLShader", 0⟩

/-! ### Reading -/

/-- Reads a sampler state after its keyword: the name of its texture. -/
def expectSampler : Parser String := do
  expectMark .openBrace
  let _ ← expectKeyword "Texture"
  expectMark .equal
  expectMark .less
  let texture ← expectName "a texture name"
  expectMark .greater
  expectMark .semicolon
  expectMark .closeBrace
  return texture.lexeme

/-- Reads the value of a uniform or an annotation. -/
def expectConstant : Parser Literal := do
  if ← acceptKeyword "sampler_state" then return .sampler (← expectSampler)
  else expectLiteral .curly "a constant"

/-- Reads the control an annotation asks for. -/
def expectControl : Parser Control := do
  let word ← expectName "`Range` or `Color`"
  match word.lexeme with
  | "Color" => return .color
  | "Range" =>
    let bounds ← expectBounds
    return .range bounds.1 bounds.2
  | _ => refuse "`Range` or `Color`" word

/-- Reads the rest of an annotation's brackets: its description, and possibly a control. -/
def expectDescription : Parser (String × Option Control) := do
  let description ← expectString "a description"
  let control? ← if ← accept .comma then some <$> expectControl else pure none
  expectMark .closeParen
  return (description, control?)

/-- Reads an annotation. -/
def expectEntry : Parser AnnotationEntry := do
  let _ ← expectName "an annotation type or `>`"
  let name ← expectName "an annotation name"
  let description? ← if ← accept .openParen then some <$> expectDescription else pure none
  let value? ← if ← accept .equal then some <$> expectConstant else pure none
  expectMark .semicolon
  return ⟨name.lexeme, description?.map Prod.fst, description?.bind Prod.snd, value?,
    name.position⟩

/-- Reads a list of annotations, if one stands next. -/
def acceptAnnotations : Parser (List AnnotationEntry) := do
  if ← accept .less then
    let annotations ← manyUntil .greater expectEntry
    expectMark .greater
    return annotations
  else return []

/-- Reads a uniform, its keyword being the next token. -/
def readUniform (draft : Draft) : Parser Draft := do
  let _ ← take
  let type ← expectName "a type"
  let name ← expectName "a uniform name"
  if draft.shader.uniforms.contains name.lexeme then refuseDuplicate .uniform name
  let semantic? ← if ← accept .colon then some <$> expectName "a semantic" else pure none
  let annotations ← acceptAnnotations
  let default? ← if ← accept .equal then some <$> expectConstant else pure none
  expectMark .semicolon
  Action.record .debug s!"Uniform {type.lexeme} {name.lexeme}"
  let uniform : Uniform := ⟨name.lexeme, type.lexeme, semantic?.map Token.lexeme, default?,
    AnnotationEntry.table annotations, name.position⟩
  let uniforms := draft.shader.uniforms.insert name.lexeme uniform
  return ⟨{ draft.shader with uniforms }, draft.annotations.insert name.lexeme annotations⟩

/-- Reads a field of a vertex stream. -/
def expectField : Parser StreamField := do
  let type ← expectName r"a type or `}`"
  let name ← expectName "a field name"
  expectMark .colon
  let semantic ← expectName "a semantic"
  expectMark .semicolon
  return ⟨type.lexeme, name.lexeme, semantic.lexeme⟩

/-- Reads a vertex stream, its keyword being the next token. -/
def readStream (draft : Draft) : Parser Draft := do
  let _ ← take
  let name ← expectName "an attribute stream name"
  if draft.shader.streams.contains name.lexeme then refuseDuplicate .stream name
  expectMark .openBrace
  let fields ← manyUntil .closeBrace expectField
  expectMark .closeBrace
  expectMark .semicolon
  let streams := draft.shader.streams.insert name.lexeme ⟨name.lexeme, fields, name.position⟩
  return { draft with shader := { draft.shader with streams } }

/-- Reads a code block, its keyword being the next token. -/
def readBlock (draft : Draft) : Parser Draft := do
  let _ ← take
  let name ← expectName "a GLSLShader name"
  expectMark .openBrace
  let body ← expectBody "a GLSLShader body"
  if draft.shader.blocks.contains name.lexeme then refuseDuplicate .block name
  let block := CodeBlock.ofBody name.lexeme body.lexeme body.position
  let blocks := draft.shader.blocks.insert name.lexeme block
  return { draft with shader := { draft.shader with blocks } }

/-- Reads a stream as a stage uses it. -/
def expectArgument (direction : Direction) : Parser StreamArgument := do
  let _ ← expectKeyword direction.keyword
  let stream ← expectName "an attribute stream name"
  let instance? ← takeIf .identifier
  return ⟨direction, stream.lexeme, instance?.map Token.lexeme, stream.position⟩

/-- Reads the streams of a stage. -/
def expectInterface : Parser StageStreams := do
  expectMark .openParen
  let input ← expectArgument .input
  expectMark .comma
  let output ← expectArgument .output
  expectMark .closeParen
  return ⟨input, output⟩

/-- Reads what a pass binds to one stage. -/
def readStage (stages : OrderedMap Stage BoundStage) :
    Parser (OrderedMap Stage BoundStage) := do
  let word ← expectName r"a shader stage or `}`"
  match Stage.ofEffectKeyword? word.lexeme with
  | none => refuse "a shader stage" word
  | some slot =>
    if stages.contains slot then refuseDuplicate .stage word
    let interface ← expectInterface
    expectMark .equal
    let blocks ← expectReferences .curly "a GLSLShader name"
    expectMark .semicolon
    return stages.insert slot ⟨blocks, some interface, word.position⟩

/-- Reads a pass, its keyword being the next token. -/
def readPass : Parser Pass := do
  let keyword ← take
  let name ← expectName "a pass name"
  let annotations ← acceptAnnotations
  expectMark .openBrace
  let stages ← foldUntil .closeBrace readStage .empty
  let close ← take
  requireStages stages close
  return ⟨some name.lexeme, stages, AnnotationEntry.table annotations, keyword.position⟩

/-- Reads the passes of a technique up to its closing brace; there is at least one. -/
def expectPasses : Parser (List Pass) := do
  if !(← seesKeyword "pass") then unexpected "`pass`"
  manyUntil .closeBrace (do
    if ← seesKeyword "pass" then readPass else unexpected r"`pass` or `}`")

/-- Reads a technique, its keyword being the next token. -/
def readTechnique (draft : Draft) : Parser Draft := do
  let keyword ← take
  let name ← expectName "a technique name"
  if draft.shader.techniques.contains name.lexeme then refuseDuplicate .technique name
  let annotations ← acceptAnnotations
  expectMark .openBrace
  let passes ← expectPasses
  expectMark .closeBrace
  let technique : Technique :=
    ⟨name.lexeme, passes, AnnotationEntry.table annotations, keyword.position⟩
  recordTechnique technique
  let techniques := draft.shader.techniques.insert name.lexeme technique
  return { draft with shader := { draft.shader with techniques } }

/-- Reads one declaration of a file. -/
def readItem (draft : Draft) : Parser Draft := do
  if ← seesKeyword "uniform" then readUniform draft
  else if ← seesKeyword "attribute" then readStream draft
  else if ← seesKeyword "GLSLShader" then readBlock draft
  else if ← seesKeyword "technique" then readTechnique draft
  else unexpected "`uniform`, `attribute`, `GLSLShader` or `technique`"

/-! ### Properties of uniforms -/

/-- The type of property that can edit a uniform, if one can. -/
def propertyType? (uniform : Uniform) (annotations : List AnnotationEntry) : Option PropertyType :=
  match uniform.type with
  | "float" => some .float
  | "int" => some .int
  | "vec2" => some .vec2
  | "vec3" => some .vec3
  | "vec4" => some (if annotations.any AnnotationEntry.asksForColor then .color else .vec4)
  | "texture2D" | "Texture2D" => some .texture2D
  | _ => none

/-- The ends of the slider that edits a uniform: both written as annotations of their own, or
else those of the first annotation that asks for a slider. -/
def bounds? (annotations : List AnnotationEntry) : Option (BinaryValue × BinaryValue) :=
  let boundOf? := AnnotationEntry.boundOf? annotations
  match boundOf? "UIMin", boundOf? "UIMax" with
  | some least, some greatest => some (least, greatest)
  | _, _ => annotations.findSome? AnnotationEntry.slider?

/-- The property that edits a uniform, if one can. The default of a texture is the name of an
image, which an annotation gives. -/
def propertyOf? (uniform : Uniform) (annotations : List AnnotationEntry) :
    Option PropertyDeclaration :=
  (propertyType? uniform annotations).map fun type =>
    { name := uniform.name
      label := (AnnotationEntry.textOf? annotations "UIName").getD uniform.name
      type? := some type
      default? :=
        if type = .texture2D then AnnotationEntry.valueOf? annotations "ResourceName"
        else uniform.default?
      attributes :=
        ((AnnotationEntry.textOf? annotations "UIGroup").map EditorHint.header).toList ++
          ((bounds? annotations).map fun bounds => EditorHint.range bounds.1 bounds.2).toList
      position := uniform.position }

/-- Warns of annotations that mean nothing. -/
def warnOfUnknown (annotations : List AnnotationEntry) : Parser Unit :=
  annotations.forM fun entry => do
    if entry.name ∉ AnnotationEntry.knownNames then
      Action.record .warning s!"{entry.position}: ignoring annotation {entry.name}"

/-- Adds the property that edits a uniform, if one can and the engine does not bind it. -/
def addProperty (draft : Draft) (properties : OrderedMap String Property) (uniform : Uniform) :
    Parser (OrderedMap String Property) := do
  let annotations := (draft.annotations.get? uniform.name).getD []
  warnOfUnknown annotations
  if uniform.semantic?.isSome then return properties
  match propertyOf? uniform annotations with
  | none => return properties
  | some declaration =>
    let property ← resolveProperty declaration
    return properties.insert property.name property

/-- Reads a whole file. -/
def expectFile (path : SourcePath) : Parser Shader := do
  let draft ← foldUntil .endOfFile readItem ⟨.empty path, .empty⟩
  if draft.shader.techniques.isEmpty then unexpected "a technique"
  let properties ← draft.shader.uniforms.values.foldlM (addProperty draft) .empty
  return { draft.shader with properties }

/-! ### Moving positions to the files -/

/-- The position in a file of a position in an expanded text. -/
def located (map : LineMap) (position : Position) : Position :=
  match map.locate position.line with
  | some origin => ⟨origin.file, origin.line, position.column⟩
  | none => position

/-- Moves a block; its body takes with it the part of the map that covers its lines. -/
def locateBlock (map : LineMap) (block : CodeBlock) : CodeBlock :=
  let count := (Text.lines block.body.toList).length
  { block with
    expanded := ⟨block.body, map.slice block.position.line count⟩
    position := located map block.position }

/-- Moves all positions of a shader. -/
def locateShader (map : LineMap) (shader : Shader) : Shader :=
  { shader with
    shared? := shader.shared?.map (locateBlock map)
    blocks := shader.blocks.mapValues (locateBlock map)
    techniques := shader.techniques.mapValues (·.mapPosition (located map))
    uniforms := shader.uniforms.mapValues (·.mapPosition (located map))
    streams := shader.streams.mapValues (·.mapPosition (located map))
    properties := shader.properties.mapValues (·.mapPosition (located map)) }

/-- Reads the shader that an expanded effect file declares. -/
def parse (path : SourcePath) (source : ExpandedText) : Traced Error Shader := do
  let tokens := Token.scan (some blockRule) path source.text
  let shader ← ((expectFile path).run (.ofTokens path tokens)).mapError
    (·.mapPosition (located source.map))
  return locateShader source.map shader

/-- Reads the shader that an effect file without includes declares. -/
def parseText (path : SourcePath) (text : String) : Traced Error Shader :=
  parse path (.verbatim text path 1)

end ShaderAssembly.Effect
