import ShaderAssembly.DataText.Numeral

/-!
# Values of any kind in data

A value is a word, a number, a quoted text or character, values in square brackets, keys and
values in braces, or values or named fields in round brackets, possibly after a word. `Some` holds
one value. Nothing is kept of the values read here.

Values may be nested `stepLimit` steps deep: it is one step into brackets, one to a part in them,
and one to what `Some` holds.

Round brackets hold named fields if a word and a colon stand first in them.
-/

namespace ShaderAssembly.DataText

/-- How many steps into values can be taken. -/
def stepLimit : Nat := 128

/-- Passes over something in a text. -/
abbrev Pass := List Char → Except Fault (List Char)

/-- A way into a value, if another step can be taken. -/
def allowed (pass? : Option Pass) (text : List Char) : Except Fault Pass :=
  match pass? with
  | some pass => .ok pass
  | none => fail .tooDeep text

/-! ### Brackets -/

/-- Whether named fields stand first in a text. -/
def startsFields (text : List Char) : Except Fault Bool := do
  match readWord (← skip text) with
  | .error _ => return false
  | .ok (_, rest) =>
    match ← skip rest with
    | [] => fail .endOfText []
    | c :: _ => return c = ':'

/-- Passes over values separated by commas up to a closing mark. -/
def passItems (part? : Option Pass) (closing : Char) : Pass := fun text => do
  let item := fun (_ : Unit) text => do return ((), ← (← allowed part? text) text)
  return (← foldParts item closing () text).2

/-- Passes over pairs with a colon inside each and commas between them up to a closing mark. -/
def passPairs (key part? : Option Pass) (closing : Char) : Pass := fun text => do
  let pair := fun (_ : Unit) text => do
    let rest ← skipColon (← (← allowed key text) text)
    return ((), ← (← allowed part? rest) rest)
  return (← foldParts pair closing () text).2

/-- Passes over what stands in round brackets, after the opening one. What is wrong with the text
that is looked at ahead is noticed at the opening bracket. -/
def passRound (part? : Option Pass) (canOpen : Bool) : Pass := fun text => do
  let fields ← (startsFields text).mapError fun fault => ⟨fault.cause, '(' :: text, 0⟩
  if !canOpen then fail .tooDeep text
  else if fields then
    let name : Pass := fun text => do return (← readWord text).2
    passPairs (part?.map fun _ => name) part? ')' text
  else passItems part? ')' text

/-- Passes over what follows `Some`: the value that it holds, in round brackets unless it can be
bare. -/
def passHeld (bare : Bool) (held? : Option Pass) : Pass := fun text => do
  match ← skip text with
  | '(' :: rest =>
    let rest ← skip rest
    match ← skipComma (← (← allowed held? rest) rest) with
    | ')' :: after => return after
    | after => fail .expectedHeldEnd after
  | rest => if bare then (← allowed held? rest) rest else fail .expectedHeld rest

/-! ### Values -/

/-- The words that never have brackets after them, unless they are raw. -/
def plainWords : List String := ["true", "false", "None", "inf", "NaN"]

/-- Passes over a value. What `Some` holds and the parts in brackets are passed over in the given
ways; without the first one no bracket can be opened. -/
def passOne (bare : Bool) (held? part? : Option Pass) : Pass := fun text => do
  let word := String.ofList (text.takeWhile continuesWord)
  let opened := fun rest => if held?.isSome then .ok rest else fail .tooDeep rest
  if word ∈ plainWords then return text.dropWhile continuesWord
  else if word = "Some" then passHeld bare held? (text.dropWhile continuesWord)
  else
    match readWord text with
    | .ok (_, rest) =>
      match ← skip rest with
      | '(' :: inside => passRound part? held?.isSome inside
      | rest => return rest
    | .error _ =>
      match text with
      | [] => fail .endOfText []
      | '(' :: ')' :: rest => return rest
      | '(' :: rest => passRound part? held?.isSome rest
      | '[' :: rest => passItems part? ']' (← opened rest)
      | '{' :: rest => passPairs part? part? '}' (← opened rest)
      | '\'' :: rest => passCharacter rest
      | c :: _ =>
        if c = '"' ∨ c = 'r' then return (← readText text).2
        else if c.isDigit ∨ c = '+' ∨ c = '-' ∨ c = '.' then passNumber text
        else fail (.unexpectedByte (firstByte c)) text

/-- Passes over a value into which as many steps as given can be taken. What `Some` holds can be
bare if the text says so. -/
def passValue (bare : Bool) : (steps : Nat) → Pass
  | 0, text => passOne bare none none text
  | 1, text => passOne bare (some (passValue bare 0)) none text
  | steps + 2, text =>
    passOne bare (some (passValue bare (steps + 1))) (some (passValue bare steps)) text

end ShaderAssembly.DataText
