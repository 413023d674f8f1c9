import ShaderAssembly.Text.Blank
import ShaderAssembly.Text.Word

/-!
# Include directives

A line is an include line if its first characters that are not blank are `#` and the word
`include`, possibly with blanks between. The directive is well formed if a path follows in double
quotes or angle brackets, and nothing after that but blanks and a line comment. An include line
inside a block comment counts as well.
-/

namespace ShaderAssembly.Include

/-- What a line of text means for the expansion of includes. -/
inductive Directive where
  /-- An ordinary line. -/
  | none
  /-- An include line without a well-formed path. -/
  | malformed
  /-- An include line with the path of a file. -/
  | target (path : String)
  deriving DecidableEq, Repr

namespace Directive

/-- The text after the word of an include line. -/
def afterWord? (line : List Char) : Option (List Char) :=
  match Text.trimStart line with
  | '#' :: rest =>
    match "include".toList.isPrefixOf? (Text.trimStart rest) with
    | some after => if Text.wordEndsBefore after then some after else Option.none
    | Option.none => Option.none
  | _ => Option.none

/-- Whether a text is blank up to a line comment or its end. -/
def isBlankOrComment (text : List Char) : Bool :=
  match Text.trimStart text with
  | [] => true
  | '/' :: '/' :: _ => true
  | _ => false

/-- The text up to a closing mark, if there is at least one character before the mark and nothing
but a comment after it. -/
def enclosed? (closing : Char) (text : List Char) : Option (List Char) :=
  let inside := text.takeWhile (· != closing)
  match text.dropWhile (· != closing) with
  | _ :: after => if inside ≠ [] ∧ isBlankOrComment after then some inside else Option.none
  | [] => Option.none

/-- The path that follows the word of an include line, without blanks around it. -/
def target? (text : List Char) : Option (List Char) :=
  let path? := match Text.trimStart (Text.trimEnd text) with
    | '"' :: rest => enclosed? '"' rest
    | '<' :: rest => enclosed? '>' rest
    | _ => Option.none
  (path?.map Text.trim).filter (· ≠ [])

/-- What a line means. -/
def ofLine (line : List Char) : Directive :=
  match afterWord? line with
  | Option.none => .none
  | some after =>
    match target? after with
    | Option.none => .malformed
    | some path => .target (String.ofList path)

/-- The column of the first character of a line that is not blank, where a directive starts. -/
def column (line : List Char) : Nat := (line.takeWhile Text.isBlank).length + 1

end Directive

end ShaderAssembly.Include
