import ShaderAssembly.Error
import ShaderAssembly.Journal
import ShaderAssembly.Literal

/-!
# Reading token streams

A token stream ends with a token that stays: reading beyond the end gives it again and again. A
parser takes tokens off a stream and fails at the first token that the grammar does not ask for.
Where that token is a piece of text that makes no token, the failure says why.
-/

namespace ShaderAssembly

/-- Tokens still to be read, and the token that stands for the end. -/
structure TokenStream where
  /-- The tokens before the last one. -/
  pending : List Token
  /-- The last token, which is never taken. -/
  last : Token
  deriving DecidableEq, Repr

namespace TokenStream

/-- The end-of-file token at a position. -/
def endAt (position : Position) : Token := ⟨.endOfFile, "", position⟩

/-- The stream of the given tokens. If they do not end with the end of the file, one is added at
the position of the last token, or at the start of the file if there is none. -/
def ofTokens (file : SourcePath) (tokens : List Token) : TokenStream :=
  match tokens.getLast? with
  | none => ⟨[], endAt (.ofPlace file .start)⟩
  | some last =>
    if last.kind = .endOfFile then ⟨tokens.dropLast, last⟩
    else ⟨tokens, endAt last.position⟩

/-- The next token. -/
def next (stream : TokenStream) : Token := stream.pending.head?.getD stream.last

/-- The stream without its next token. -/
def rest (stream : TokenStream) : TokenStream := { stream with pending := stream.pending.tail }

end TokenStream

/-- A reader of token streams. -/
abbrev Parser (α : Type) : Type := Action TokenStream Error α

namespace Parser

variable {α β : Type}

/-- The next token, which is left in the stream. -/
def peek : Parser Token := fun stream => (pure stream.next, stream)

/-- Takes the next token. -/
def take : Parser Token := fun stream => (pure stream.next, stream.rest)

/-- Whether the next token is of the given kind. -/
def sees (kind : TokenKind) : Parser Bool := do
  return (← peek).kind == kind

/-- Whether the next token is the given keyword. -/
def seesKeyword (word : String) : Parser Bool := do
  return (← peek).isKeyword word

/-- Takes the next token if it is of the given kind. -/
def takeIf (kind : TokenKind) : Parser (Option Token) := do
  if ← sees kind then some <$> take else return none

/-- Takes the next token if it is of the given kind, and says whether it was. -/
def accept (kind : TokenKind) : Parser Bool := do
  return (← takeIf kind).isSome

/-- Takes the next token if it is the given keyword, and says whether it was. -/
def acceptKeyword (word : String) : Parser Bool := do
  if ← seesKeyword word then
    let _ ← take
    return true
  else return false

/-- Fails because the given token stands where something else is expected. -/
def refuse (expected : String) (token : Token) : Parser α :=
  throw (.unexpected expected token.description token.position)

/-- Fails because the next token stands where something else is expected. A piece of text that
makes no token is reported as such; a single character is named like a token. -/
def unexpected (expected : String) : Parser α := do
  let token ← peek
  match token.kind with
  | .error .unexpectedCharacter => refuse expected token
  | .error issue => throw (.lexical issue token.position)
  | _ => refuse expected token

/-- Takes the next token, which has to be of the given kind. -/
def expect (kind : TokenKind) (expected : String) : Parser Token := do
  if ← sees kind then take else unexpected expected

/-- Takes the next token, which has to be of the given kind and is described by it. -/
def expectMark (kind : TokenKind) : Parser Unit := do
  let _ ← expect kind kind.description

/-- Takes the next token, which has to be the given keyword. -/
def expectKeyword (word : String) : Parser Token := do
  if ← seesKeyword word then take else unexpected s!"`{word}`"

/-- Takes a name. -/
def expectName (expected : String) : Parser Token := expect .identifier expected

/-- Takes a string and gives its contents. -/
def expectString (expected : String) : Parser String := do
  return (← expect .string expected).lexeme

/-- Takes a number. -/
def expectNumber : Parser Number := do
  let token ← expect .number "a number"
  match Number.parse? token.lexeme with
  | some number => return number
  | none => refuse "a number" token

/-- Takes one of the words `true` and `false`, if one stands next. -/
def acceptBoolean : Parser (Option Bool) := do
  if ← acceptKeyword "true" then return some true
  else if ← acceptKeyword "false" then return some false
  else return none

/-- Repeats a step from a start value until a token of the given kind stands next, which is left
in the stream. Every step has to take a token. -/
def foldUntil (stop : TokenKind) (step : β → Parser β) (value : β) : Parser β := fun stream =>
  if stream.next.kind = stop then (pure value, stream)
  else
    let (traced, after) := step value stream
    match traced.outcome with
    | .error error => (⟨traced.records, .error error⟩, after)
    | .ok value =>
      if after.pending.length < stream.pending.length then
        let (more, final) := foldUntil stop step value after
        (more.after traced.records, final)
      else
        let (stuck, final) := unexpected stop.description after
        (stuck.after traced.records, final)
termination_by stream => stream.pending.length

/-- Reads items until a token of the given kind stands next, which is left in the stream. -/
def manyUntil (stop : TokenKind) (item : Parser α) : Parser (List α) := do
  return (← foldUntil stop (fun items => do return (← item) :: items) []).reverse

/-- Reads one item, and another after each comma, up to a closing mark. -/
def commaSeparated (item : Parser α) (close : TokenKind) : Parser (List α) := do
  let first ← item
  let others ← manyUntil close (do
    if ← accept .comma then item else unexpected s!"`,` or {close.description}")
  expectMark close
  return first :: others

/-- Reads a stream from its start to where the parser stops. -/
def run (parser : Parser α) (stream : TokenStream) : Traced Error α := (parser stream).1

end Parser

end ShaderAssembly
