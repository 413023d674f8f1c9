import ShaderAssembly.Phrase
import ShaderAssembly.Token.Scan

/-!
# Shader descriptions

A shader description is one `Shader` in braces:

```text
Shader {
    Properties { [Range(0, 1)] _name("Label", float) = 0.5 }
    GLSL { shared code }
    GLSL Name { code }
    Technique Name { Pass { Vertex = (A, B) Fragment = C } }
}
```

The first error ends the reading. References to blocks are not followed here.
-/

namespace ShaderAssembly.Description

open ShaderAssembly.Parser

/-- What has been read of a description. -/
structure Draft where
  /-- The shader so far. -/
  shader : Shader
  /-- Whether the block of properties has been read. -/
  hasProperties : Bool
  deriving DecidableEq, Repr

/-- Code blocks stand right inside the braces of the shader and start with `GLSL`. -/
def blockRule : BlockRule := ⟨"GLSL", 1⟩

/-- Reads advice for editors after its opening bracket. -/
def expectAttribute : Parser EditorHint := do
  let name ← expectName "an attribute"
  let advice ← match name.lexeme with
    | "Range" => do
      let bounds ← expectBounds
      pure (.range bounds.1 bounds.2)
    | "Toggle" => pure .toggle
    | "Header" => do
      expectMark .openParen
      let text ← expectString "a header"
      expectMark .closeParen
      pure (.header text)
    | _ => refuse "`Range`, `Toggle` or `Header`" name
  expectMark .closeBracket
  return advice

/-- Reads the type of a property. -/
def expectType : Parser PropertyType := do
  let word ← expectName "a property type"
  match PropertyType.ofKeyword? word.lexeme with
  | some type => return type
  | none => refuse "a property type" word

/-- Reads a property up to its name: the name, after any advice for editors. -/
def expectPropertyName : Parser (List EditorHint × Token) := do
  let attributes ← manyUntil .identifier (do
    if ← accept .openBracket then expectAttribute else unexpected "a property name")
  return (attributes, ← expectName "a property name")

/-- Reads the declaration of a property. -/
def expectProperty : Parser PropertyDeclaration := do
  let (attributes, name) ← expectPropertyName
  expectMark .openParen
  let label ← expectString "a property label"
  let type? ← if ← accept .comma then some <$> expectType else pure none
  expectMark .closeParen
  let default? ←
    if ← accept .equal then some <$> expectLiteral .round "a literal" else pure none
  return ⟨name.lexeme, label, type?, default?, attributes, name.position⟩

/-- Reads the block of properties, its keyword being the next token. -/
def readProperties (draft : Draft) : Parser Draft := do
  let keyword ← take
  if draft.hasProperties then refuseDuplicate .propertiesBlock keyword
  expectMark .openBrace
  let properties ← foldUntil .closeBrace
    (fun properties => do
      let declaration ← expectProperty
      if properties.contains declaration.name then
        throw (.duplicate .property declaration.name declaration.position)
      let property ← resolveProperty declaration
      return properties.insert property.name property)
    draft.shader.properties
  expectMark .closeBrace
  return ⟨{ draft.shader with properties }, true⟩

/-- Reads a code block, its keyword being the next token. -/
def readBlock (draft : Draft) : Parser Draft := do
  let keyword ← take
  let name? ← takeIf .identifier
  expectMark .openBrace
  let body ← expectBody "a GLSL block body"
  match name? with
  | none =>
    if draft.shader.shared?.isSome then refuseDuplicate .sharedBlock keyword
    Action.record .debug s!"Shared GLSL block at {body.position}"
    let block := CodeBlock.ofBody CodeBlock.sharedName body.lexeme body.position
    return { draft with shader := { draft.shader with shared? := some block } }
  | some name =>
    if draft.shader.blocks.contains name.lexeme then refuseDuplicate .block name
    Action.record .debug s!"GLSL block {name.lexeme} at {body.position}"
    let block := CodeBlock.ofBody name.lexeme body.lexeme body.position
    let blocks := draft.shader.blocks.insert name.lexeme block
    return { draft with shader := { draft.shader with blocks } }

/-- Reads what a pass binds to one stage. -/
def readStage (stages : OrderedMap Stage BoundStage) :
    Parser (OrderedMap Stage BoundStage) := do
  let word ← expectName r"a stage slot or `}`"
  match Stage.ofKeyword? word.lexeme with
  | none => refuse "a stage slot" word
  | some slot =>
    if stages.contains slot then refuseDuplicate .stage word
    expectMark .equal
    let blocks ← expectReferences .round "a GLSL block name"
    return stages.insert slot ⟨blocks, none, word.position⟩

/-- Reads a pass. -/
def expectPass : Parser Pass := do
  if !(← seesKeyword "Pass") then unexpected r"`Pass` or `}`"
  let keyword ← take
  expectMark .openBrace
  let stages ← foldUntil .closeBrace readStage .empty
  let close ← take
  requireStages stages close
  return ⟨none, stages, .empty, keyword.position⟩

/-- Reads a technique, its keyword being the next token. -/
def readTechnique (draft : Draft) : Parser Draft := do
  let keyword ← take
  let name ← expectName "a technique name"
  if draft.shader.techniques.contains name.lexeme then refuseDuplicate .technique name
  expectMark .openBrace
  let passes ← manyUntil .closeBrace expectPass
  let close ← take
  if passes.isEmpty then refuse "`Pass`" close
  let technique : Technique := ⟨name.lexeme, passes, .empty, keyword.position⟩
  recordTechnique technique
  let techniques := draft.shader.techniques.insert name.lexeme technique
  return { draft with shader := { draft.shader with techniques } }

/-- Reads one item of a shader. -/
def readItem (draft : Draft) : Parser Draft := do
  if ← seesKeyword "Properties" then readProperties draft
  else if ← seesKeyword "GLSL" then readBlock draft
  else if ← seesKeyword "Technique" then readTechnique draft
  else unexpected "`Properties`, `GLSL` or `Technique`"

/-- Reads a whole description. -/
def expectShader (path : SourcePath) : Parser Shader := do
  let _ ← expectKeyword "Shader"
  expectMark .openBrace
  let draft ← foldUntil .closeBrace readItem ⟨.empty path, false⟩
  let close ← take
  expectMark .endOfFile
  if draft.shader.techniques.isEmpty then refuse "a Technique" close
  return draft.shader

/-- Reads the shader that the given tokens describe. -/
def ofTokens (path : SourcePath) (tokens : List Token) : Traced Error Shader :=
  (expectShader path).run (.ofTokens path tokens)

/-- Reads the shader that a text describes. -/
def parse (path : SourcePath) (text : String) : Traced Error Shader :=
  ofTokens path (Token.scan (some blockRule) path text)

end ShaderAssembly.Description
