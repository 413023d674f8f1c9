import ShaderAssembly.DataText.Fault

/-!
# Parts of data texts

Blanks and comments may stand between any two parts of a data text; block comments nest. Parts in
brackets are separated by commas, and a comma may stand after the last one.

A reader gives what it read and the text after it, or a fault.
-/

namespace ShaderAssembly.DataText

/-! ### Blanks and comments -/

/-- What the text between two parts is at some point. -/
inductive Gap where
  /-- Neither of the other two. -/
  | plain
  /-- A comment up to the end of its line. -/
  | lineComment
  /-- A comment inside as many others as given. -/
  | blockComment (inside : Nat)
  deriving DecidableEq, Repr

/-- Whether a character is a blank between parts. -/
def isSpace (c : Char) : Bool := c == ' ' || c == '\t' || c == '\n' || c == '\r'

/-- Passes over blanks and comments. Fails at a slash that opens no comment, and at a block
comment without an end. -/
def skipGap : Gap → List Char → Except Fault (List Char)
  | .plain, '/' :: '/' :: rest => skipGap .lineComment rest
  | .plain, '/' :: '*' :: rest => skipGap (.blockComment 0) rest
  | .plain, '/' :: c :: rest => failWithin (.unexpectedByte (firstByte c)) c rest
  | .plain, ['/'] => fail .endOfText []
  | .plain, c :: rest => if isSpace c then skipGap .plain rest else .ok (c :: rest)
  | .lineComment, c :: rest => skipGap (if c = '\n' then .plain else .lineComment) rest
  | .blockComment inside, '/' :: '*' :: rest => skipGap (.blockComment (inside + 1)) rest
  | .blockComment 0, '*' :: '/' :: rest => skipGap .plain rest
  | .blockComment (inside + 1), '*' :: '/' :: rest => skipGap (.blockComment inside) rest
  | .blockComment inside, _ :: rest => skipGap (.blockComment inside) rest
  | .blockComment _, [] => fail .unclosedComment []
  | _, [] => .ok []

/-- Passes over blanks and comments. -/
def skip (text : List Char) : Except Fault (List Char) := skipGap .plain text

/-- Passes over blanks and comments, and a comma among them. -/
def skipComma (text : List Char) : Except Fault (List Char) := do
  match ← skip text with
  | ',' :: rest => skip rest
  | rest => return rest

/-- Passes over blanks and comments, and the colon that has to be among them. -/
def skipColon (text : List Char) : Except Fault (List Char) := do
  match ← skip text with
  | ':' :: rest => skip rest
  | rest => fail .expectedColon rest

/-! ### Words -/

/-- Reads a word. Characters that only raw words have may not follow it. -/
def readPlainWord (text : List Char) : Except Fault (String × List Char) :=
  let rest := text.dropWhile continuesWord
  if (rest.head?.map continuesRawWord).getD false then
    fail (.onlyRawWord (String.ofList (text.takeWhile continuesRawWord))) text
  else .ok (String.ofList (text.takeWhile continuesWord), rest)

/-- Reads a word, or a raw word after the mark of one. -/
def readWord (text : List Char) : Except Fault (String × List Char) :=
  match text with
  | [] => fail .endOfText text
  | ['r'] => fail .endOfText text
  | 'r' :: '"' :: _ => fail .expectedWord text
  | 'r' :: '#' :: rest =>
    match rest.takeWhile continuesRawWord with
    | [] => fail .expectedWord text
    | word => .ok (String.ofList word, rest.dropWhile continuesRawWord)
  | c :: _ => if startsWord c then readPlainWord text else fail .expectedWord text

/-! ### Brackets -/

/-- Reads parts separated by commas up to a closing mark. What is read is built up from an initial
state. -/
def foldParts {σ : Type} (part : σ → List Char → Except Fault (σ × List Char)) (closing : Char)
    (state : σ) (text : List Char) : Except Fault (σ × List Char) := do
  match ← skip text with
  | [] => fail .endOfText []
  | c :: rest =>
    if c = closing then return (state, rest)
    else
      let (state, after) ← part state (c :: rest)
      match ← skip after with
      | [] => fail .endOfText []
      | mark :: more =>
        if mark = closing then return (state, more)
        else if mark = ',' ∧ more.length < text.length then foldParts part closing state more
        else fail .expectedComma (mark :: more)
termination_by text.length

end ShaderAssembly.DataText
