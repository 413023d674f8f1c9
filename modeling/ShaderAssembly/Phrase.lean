import ShaderAssembly.Shader
import ShaderAssembly.TokenStream

/-!
# Phrases of both dialects

Shader descriptions and effect files differ in how they are laid out, but both bind blocks to the
stages of passes, and both write bounds, literals and lists of blocks in the same way, apart from
the kind of brackets.
-/

namespace ShaderAssembly

/-- A pair of opening and closing marks. -/
structure Brackets where
  /-- The opening mark. -/
  opening : TokenKind
  /-- The closing mark. -/
  closing : TokenKind
  deriving DecidableEq, Repr

namespace Brackets

/-- Round brackets. -/
def round : Brackets := ⟨.openParen, .closeParen⟩

/-- Curly braces. -/
def curly : Brackets := ⟨.openBrace, .closeBrace⟩

end Brackets

namespace Parser

/-- Reads the two ends of a range, in round brackets. -/
def expectBounds : Parser (BinaryValue × BinaryValue) := do
  expectMark .openParen
  let least ← expectNumber
  expectMark .comma
  let greatest ← expectNumber
  expectMark .closeParen
  return (least.toBinary32, greatest.toBinary32)

/-- Reads a literal: a boolean, a string, a number, or numbers in brackets. -/
def expectLiteral (brackets : Brackets) (expected : String) : Parser Literal := do
  if let some value ← acceptBoolean then return .boolean value
  let token ← peek
  match token.kind with
  | .string => return .string (← take).lexeme
  | .number => return .number (← expectNumber)
  | kind =>
    if kind = brackets.opening then
      let _ ← take
      return .tuple (← commaSeparated expectNumber brackets.closing)
    else unexpected expected

/-- Reads a reference to a block. -/
def expectReference (expected : String) : Parser BlockReference := do
  let name ← expectName expected
  return ⟨name.lexeme, name.position⟩

/-- Reads one reference to a block, or several in brackets. -/
def expectReferences (brackets : Brackets) (expected : String) : Parser (List BlockReference) := do
  if ← accept brackets.opening then
    commaSeparated (expectReference expected) brackets.closing
  else return [← expectReference expected]

/-- Reads the body of a code block up to its closing brace, after the opening one. -/
def expectBody (expected : String) : Parser Token := do
  let body ← expect .body expected
  expectMark .closeBrace
  return body

/-- The stages that every pass has to bind. -/
def requiredStages : List Stage := [.vertex, .fragment]

/-- Fails at the closing brace of a pass if the pass lacks a stage it has to bind. -/
def requireStages (stages : OrderedMap Stage BoundStage) (close : Token) : Parser Unit := do
  match requiredStages.find? fun slot => !stages.contains slot with
  | none => return ()
  | some slot => refuse s!"{slot.keyword} stage binding" close

/-- Fails because a name is declared for a second time. -/
def refuseDuplicate {α : Type} (kind : DeclarationKind) (token : Token) : Parser α :=
  throw (.duplicate kind token.lexeme token.position)

/-- Gives a declared property its type and records it in the journal. -/
def resolveProperty (declaration : PropertyDeclaration) : Parser Property := do
  match declaration.resolve with
  | .error error => throw error
  | .ok property =>
    Action.record .debug s!"Property {property.name}: {property.type.keyword}"
    return property

/-- Records a technique that has been read. -/
def recordTechnique (technique : Technique) : Parser Unit :=
  Action.record .debug s!"Technique {technique.name} with {technique.passes.length} pass(es)"

end Parser

end ShaderAssembly
