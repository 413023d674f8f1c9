import ShaderAssembly.DataText.Parts

/-!
# Quoted texts in data

A text stands between double quotes, with escapes in it, or raw between quotes with number signs
outside of them. A single character stands between apostrophes.
-/

namespace ShaderAssembly.DataText

/-! ### Escapes -/

/-- The value of a hexadecimal digit. -/
def hexDigit? (c : Char) : Option Nat :=
  if c.isDigit then some (c.toNat - '0'.toNat)
  else if 'a' ≤ c ∧ c ≤ 'f' then some (c.toNat - 'a'.toNat + 10)
  else if 'A' ≤ c ∧ c ≤ 'F' then some (c.toNat - 'A'.toNat + 10)
  else none

/-- Reads exactly as many hexadecimal digits as given, which continue the given value. -/
def readByte : (digits value : Nat) → List Char → Except Fault (Nat × List Char)
  | 0, value, rest => .ok (value, rest)
  | _ + 1, _, [] => fail .endOfText []
  | digits + 1, value, c :: rest =>
    match hexDigit? c with
    | some digit => readByte digits (16 * value + digit) rest
    | none => failWithin (.badEscape .noDigit) c rest

/-- Reads hexadecimal digits up to a closing brace, but not more than given. They continue the
given value. -/
def readCodePoint : (digits value : Nat) → List Char → Except Fault (Nat × List Char)
  | 0, value, rest => .ok (value, rest)
  | _ + 1, _, [] => fail .endOfText []
  | digits + 1, value, c :: rest =>
    if c = '}' then .ok (value, c :: rest)
    else
      match hexDigit? c with
      | some digit => readCodePoint digits (16 * value + digit) rest
      | none => failWithin (.badEscape .noDigit) c rest

/-- Reads the code point of a character after the opening brace. -/
def readBracedCodePoint (text : List Char) : Except Fault (Char × List Char) := do
  let (value, rest) ← readCodePoint 6 0 text
  if rest.length = text.length then fail (.badEscape .empty) rest
  else
    match rest with
    | [] => fail .endOfText []
    | '}' :: after =>
      if value.isValidChar then return (Char.ofNat value, after)
      else fail (.badEscape .noCharacter) after
    | c :: after => failWithin (.badEscape .unclosed) c after

/-- Reads an escape after its backslash. -/
def readEscape : List Char → Except Fault (Char × List Char)
  | [] => fail .endOfText []
  | '\'' :: rest => .ok ('\'', rest)
  | '"' :: rest => .ok ('"', rest)
  | '\\' :: rest => .ok ('\\', rest)
  | 'n' :: rest => .ok ('\n', rest)
  | 'r' :: rest => .ok ('\r', rest)
  | 't' :: rest => .ok ('\t', rest)
  | '0' :: rest => .ok ('\x00', rest)
  | 'x' :: rest => do
    let (value, after) ← readByte 2 0 rest
    return (Char.ofNat value, after)
  | 'u' :: '{' :: rest => readBracedCodePoint rest
  | 'u' :: c :: rest => failWithin (.badEscape .unopened) c rest
  | ['u'] => fail .endOfText []
  | c :: rest => failWithin (.badEscape .unknown) c rest

/-! ### Texts -/

/-- Reads a text with escapes after its opening quote. `unclosed` is what is wrong if there is
neither a quote nor a backslash in the rest. -/
def readEscapedText (unclosed : Cause) (text : List Char) :
    Except Fault (List Char × List Char) := do
  let isPlain := fun c => c != '\\' && c != '"'
  let plain := text.takeWhile isPlain
  match text.dropWhile isPlain with
  | '\\' :: escape =>
    let (c, rest) ← readEscape escape
    if rest.length < text.length then
      let (contents, after) ← readEscapedText .endOfText rest
      return (plain ++ c :: contents, after)
    else fail unclosed text
  | _ :: rest => return (plain, rest)
  | [] => fail unclosed text
termination_by text.length

/-- The contents of a raw text up to a quote with as many number signs as the given ones, and what
follows these. -/
def readRawText? (signs : List Char) : List Char → Option (List Char × List Char)
  | [] => none
  | c :: rest =>
    match (if c = '"' then signs.isPrefixOf? rest else none) with
    | some after => some ([], after)
    | none => (readRawText? signs rest).map fun (contents, after) => (c :: contents, after)

/-- Reads a text, raw or not. -/
def readText (text : List Char) : Except Fault (String × List Char) :=
  match text with
  | '"' :: rest => (readEscapedText .unclosedText rest).map (Prod.map String.ofList id)
  | 'r' :: rest =>
    match rest.dropWhile (· == '#') with
    | '"' :: contents =>
      match readRawText? (rest.takeWhile (· == '#')) contents with
      | some (contents, after) => .ok (String.ofList contents, after)
      | none => fail .unclosedText contents
    | c :: after => failWithin .expectedText c after
    | [] => fail .endOfText []
  | _ => fail .expectedText text

/-! ### Characters -/

/-- Passes over a character after its opening apostrophe. -/
def passCharacter : List Char → Except Fault (List Char)
  | [] => fail .endOfText []
  | '\\' :: escape => do
    match ← readEscape escape with
    | (_, '\'' :: rest) => return rest
    | (_, rest) => fail .expectedCharacter rest
  | c :: '\'' :: rest => if c = '\'' then fail .expectedCharacter (c :: '\'' :: rest) else .ok rest
  | text => fail .expectedCharacter text

end ShaderAssembly.DataText
