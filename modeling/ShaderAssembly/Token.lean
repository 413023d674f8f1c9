import ShaderAssembly.Position

/-!
# Tokens

A token is a piece of a shader description that its grammar treats as a unit. Text that makes no
token comes out as an error token, so reading tokens never fails; whoever reaches such a token
decides what it means. The body of a code block is one token, kept exactly as written.
-/

namespace ShaderAssembly

/-- Why a piece of text makes no token. -/
inductive TokenIssue where
  /-- A character that starts no token. -/
  | unexpectedCharacter
  /-- A string that its line or the text ends before its closing quote. -/
  | unterminatedString
  /-- A block comment that the text ends before its closing mark. -/
  | unterminatedComment
  /-- A code block that the text ends before its closing brace. -/
  | unterminatedBlock
  deriving DecidableEq, Repr, Inhabited

/-- How an issue reads in messages. -/
def TokenIssue.description : TokenIssue → String
  | .unexpectedCharacter => "unexpected character"
  | .unterminatedString => "unterminated string"
  | .unterminatedComment => "unterminated comment"
  | .unterminatedBlock => "unterminated block"

/-- The kinds of tokens. -/
inductive TokenKind where
  /-- A name or keyword. -/
  | identifier
  /-- A quoted string. -/
  | string
  /-- A number. -/
  | number
  /-- The body of a code block, between its outer braces. -/
  | body
  | openBrace
  | closeBrace
  | openParen
  | closeParen
  | openBracket
  | closeBracket
  | less
  | greater
  | equal
  | comma
  | colon
  | semicolon
  /-- A piece of text that makes no token. -/
  | error (issue : TokenIssue)
  /-- The end of the text. -/
  | endOfFile
  deriving DecidableEq, Repr, Inhabited

/-- How a kind of token reads in messages. -/
def TokenKind.description : TokenKind → String
  | .identifier => "identifier"
  | .string => "string"
  | .number => "number"
  | .body => "block body"
  | .openBrace => r"`{`"
  | .closeBrace => r"`}`"
  | .openParen => "`(`"
  | .closeParen => "`)`"
  | .openBracket => "`[`"
  | .closeBracket => "`]`"
  | .less => "`<`"
  | .greater => "`>`"
  | .equal => "`=`"
  | .comma => "`,`"
  | .colon => "`:`"
  | .semicolon => "`;`"
  | .error issue => issue.description
  | .endOfFile => "end of file"

/-- A token with its text and where it starts. -/
structure Token where
  /-- What the token is. -/
  kind : TokenKind
  /-- The text of the token: a string without quotes and escapes, a code block's body. -/
  lexeme : String
  /-- Where its first character stands. -/
  position : Position
  deriving DecidableEq, Repr, Inhabited

namespace Token

/-- Whether the token is the given word. -/
def isKeyword (token : Token) (word : String) : Bool :=
  token.kind == .identifier && token.lexeme == word

/-- How the token reads in messages. -/
def description (token : Token) : String :=
  match token.kind with
  | .identifier => s!"`{token.lexeme}`"
  | .number => s!"number `{token.lexeme}`"
  | .string => s!"string \"{token.lexeme}\""
  | .error .unexpectedCharacter => s!"unexpected character `{token.lexeme}`"
  | kind => kind.description

end Token

end ShaderAssembly
