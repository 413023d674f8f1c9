import ShaderAssembly.Text.Quoted

/-!
# Faults of data texts

A data text that is not written as it should be has a fault: a cause, and the text that was left
where the fault was found. The message of a fault starts with the line and the column of that
place. Columns count the bytes of the encoded text.
-/

namespace ShaderAssembly.DataText

/-! ### Words -/

/-- Whether a character can start a word. -/
def startsWord (c : Char) : Bool := c.isAlpha || c == '_'

/-- Whether a character can continue a word. -/
def continuesWord (c : Char) : Bool := c.isAlphanum || c == '_'

/-- Whether a character can be part of a raw word. -/
def continuesRawWord (c : Char) : Bool := continuesWord c || c == '.' || c == '+' || c == '-'

/-- A word as messages show it: marked if only a raw word can be spelled like that, and quoted if
no word can. -/
def shownWord (word : String) : String :=
  match word.toList with
  | [] => Text.quoted .plain word ++ "_[invalid identifier]"
  | first :: others =>
    if !(first :: others).all continuesRawWord then
      Text.quoted .plain word ++ "_[invalid identifier]"
    else if startsWord first && others.all continuesWord then s!"`{word}`"
    else s!"`r#{word}`"

/-- The words that could stand in the place of another one, as messages list them. -/
def offered : List String → String
  | [] => "there are no variants"
  | [only] => s!"expected {shownWord only} instead"
  | [first, second] => s!"expected either {shownWord first} or {shownWord second} instead"
  | words =>
    let first := String.intercalate ", " (words.dropLast.map shownWord)
    let last := shownWord (words.getLast?.getD "")
    s!"expected one of {first}, or {last} instead"

/-! ### Causes -/

/-- What can be wrong with an escape. -/
inductive EscapeIssue where
  /-- No escape starts with the character after the backslash. -/
  | unknown
  /-- A character stands where a hexadecimal digit should. -/
  | noDigit
  /-- The code point has no opening brace. -/
  | unopened
  /-- There are no digits between the braces. -/
  | empty
  /-- The code point has no closing brace after six digits. -/
  | unclosed
  /-- No character has the code point. -/
  | noCharacter
  deriving DecidableEq, Repr

/-- How messages say what is wrong with an escape. -/
def EscapeIssue.message : EscapeIssue → String
  | .unknown => "Unknown escape character"
  | .noDigit => "Non-hex digit found"
  | .unopened => r"Missing { in Unicode escape"
  | .empty => "Expected 1-6 digits, got 0 digits in Unicode escape"
  | .unclosed => r"No } at the end of Unicode escape"
  | .noCharacter => "Not a valid Unicode-escaped character"

/-- What can be wrong with a data text. -/
inductive Cause where
  /-- The text ends too early. -/
  | endOfText
  /-- Something follows the value that the text consists of. -/
  | trailingText
  /-- A block comment has no end. -/
  | unclosedComment
  /-- A byte at which nothing starts that could stand there. -/
  | unexpectedByte (byte : Char)
  /-- A number sign that opens no attribute. -/
  | expectedAttribute
  /-- An attribute has no end. -/
  | expectedAttributeEnd
  /-- An attribute names an extension that does not exist. -/
  | unknownExtension (name : String)
  | expectedWord
  /-- A word can only be spelled like that if it is raw. -/
  | onlyRawWord (word : String)
  | expectedColon
  | expectedComma
  /-- Something else than a record of the given name. -/
  | expectedRecord (name : String)
  /-- A record of another name. -/
  | otherRecord (name found : String)
  /-- A field that stands twice in a record. -/
  | repeatedField (field record : String)
  /-- A word that is none of those a type has. -/
  | unknownChoice (type found : String) (choices : List String)
  | expectedMap
  | expectedText
  /-- A quoted text has no end. -/
  | unclosedText
  | badEscape (issue : EscapeIssue)
  | expectedCharacter
  | expectedDecimal
  /-- A decimal has an underscore among its digits. -/
  | underscoreInDecimal
  /-- `Some` is not followed by what it holds. -/
  | expectedHeld
  /-- What `Some` holds is not followed by a round bracket. -/
  | expectedHeldEnd
  /-- Values are nested too deeply. -/
  | tooDeep
  deriving DecidableEq, Repr

/-- How messages say what is wrong. -/
def Cause.message : Cause → String
  | .endOfText => "Unexpected end of RON"
  | .trailingText => "Non-whitespace trailing characters"
  | .unclosedComment => "Unclosed block comment"
  | .unexpectedByte byte => s!"Unexpected byte {Text.quotedCharacter byte}"
  | .expectedAttribute => "Expected an `#![enable(...)]` attribute"
  | .expectedAttributeEnd => "Expected closing `)]` after the attribute"
  | .unknownExtension name => s!"No RON extension named {shownWord name}"
  | .expectedWord => "Expected identifier"
  | .onlyRawWord word =>
    s!"Found invalid std identifier `{word}`, try the raw identifier `r#{word}` instead"
  | .expectedColon => "Expected colon"
  | .expectedComma => "Expected comma"
  | .expectedRecord name => s!"Expected opening `(` for struct {shownWord name}"
  | .otherRecord name found => s!"Expected struct {shownWord name} but found {shownWord found}"
  | .repeatedField field record =>
    s!"Unexpected duplicate field named {shownWord field} in {shownWord record}"
  | .unknownChoice type found choices =>
    let what := s!"variant named {shownWord found} in enum {shownWord type}"
    s!"Unexpected {what}, {offered choices}"
  | .expectedMap => r"Expected opening `{`"
  | .expectedText => "Expected string"
  | .unclosedText => "Expected end of string"
  | .badEscape issue => issue.message
  | .expectedCharacter => "Expected char"
  | .expectedDecimal => "Expected float"
  | .underscoreInDecimal => "Unexpected underscore in float"
  | .expectedHeld => "Expected option"
  | .expectedHeldEnd => "Expected closing `)`"
  | .tooDeep =>
    "Exceeded recursion limit, try increasing `ron::Options::recursion_limit` and using " ++
      "`serde_stacker` to protect against a stack overflow"

/-! ### Faults -/

/-- Why and where a data text cannot be read. -/
structure Fault where
  /-- What is wrong. -/
  cause : Cause
  /-- The text that was left. -/
  rest : List Char
  /-- How many bytes of the character before that text were left as well. -/
  unread : Nat
  deriving DecidableEq, Repr

/-- Fails where the given text is left. -/
def fail {α : Type} (cause : Cause) (rest : List Char) : Except Fault α := .error ⟨cause, rest, 0⟩

/-- Fails after the first byte of a character. -/
def failWithin {α : Type} (cause : Cause) (c : Char) (rest : List Char) : Except Fault α :=
  .error ⟨cause, rest, c.utf8Size - 1⟩

/-- The first byte of the encoding of a character. -/
def firstByte (c : Char) : Char :=
  match c.utf8Size with
  | 1 => c
  | 2 => Char.ofNat (0xC0 + c.toNat / 0x40)
  | 3 => Char.ofNat (0xE0 + c.toNat / 0x1000)
  | _ => Char.ofNat (0xF0 + c.toNat / 0x40000)

namespace Fault

/-- The line and the column where a fault was found in a text, both counted from one. -/
def place (text : List Char) (fault : Fault) : Nat × Nat :=
  let before := text.take (text.length - fault.rest.length)
  let onLine := before.reverse.takeWhile (· != '\n')
  let column := onLine.foldl (fun column c => column + c.utf8Size) 1
  (before.count '\n' + 1, column - fault.unread)

/-- What is wrong with a text, after the place where. -/
def message (text : List Char) (fault : Fault) : String :=
  let (line, column) := fault.place text
  s!"{line}:{column}: {fault.cause.message}"

end Fault

end ShaderAssembly.DataText
