import ShaderAssembly.Text.Hidden

/-!
# Quoted texts

A text is quoted by putting it between double quotes, with a backslash before each backslash and
double quote, the short escapes `\n`, `\r`, `\t` and `\0`, and the code point of every other
character that does not show in braces after `\u`. One of the two styles also escapes the
apostrophe.
-/

namespace ShaderAssembly.Text

/-- Whether an apostrophe inside a quoted text is escaped. -/
inductive Apostrophe where
  /-- Written as it is. -/
  | plain
  /-- Written with a backslash before it. -/
  | escaped
  deriving DecidableEq, Repr

/-- The lower-case hexadecimal digits of a number, without leading zeros. -/
def hexadecimal (n : Nat) : List Char := Nat.toDigits 16 n

/-- How one character is written inside a quoted text. -/
def quotedChar (style : Apostrophe) (c : Char) : List Char :=
  match c with
  | '\\' => ['\\', '\\']
  | '"' => ['\\', '"']
  | '\n' => ['\\', 'n']
  | '\r' => ['\\', 'r']
  | '\t' => ['\\', 't']
  | '\x00' => ['\\', '0']
  | '\'' => if style = .escaped then ['\\', c] else [c]
  | _ =>
    if isHidden c then '\\' :: 'u' :: '{' :: (hexadecimal c.toNat ++ ['}']) else [c]

/-- A character between apostrophes, written so that it can be read back. -/
def quotedCharacter (c : Char) : String :=
  let written := if c = '"' then [c] else quotedChar .escaped c
  String.ofList ('\'' :: (written ++ ['\'']))

/-- The text between double quotes, every character written so that it can be read back. -/
def quoted (style : Apostrophe) (text : String) : String :=
  String.ofList ('"' :: (text.toList.flatMap (quotedChar style) ++ ['"']))

end ShaderAssembly.Text
