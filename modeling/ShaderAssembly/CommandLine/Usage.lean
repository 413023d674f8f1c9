import ShaderAssembly.CommandLine.Request

/-!
# How to use the program

The help lists the options one below the other, with what they do in a column of its own. An
option without a description still fills the first column.
-/

namespace ShaderAssembly.CommandLine

/-- An option as the help shows it. -/
structure OptionHelp where
  /-- The letter that stands for the option. -/
  letter? : Option Char
  /-- The name of the option, with its value. -/
  spelling : String
  /-- What the option does. -/
  description : String
  deriving DecidableEq, Repr

namespace OptionHelp

/-- All options. -/
def all : List OptionHelp := [
  ⟨none, "--root <ROOT>",
    "Directory that include paths starting with `/` resolve from [default: .]"⟩,
  ⟨none, "--config <CONFIG>", "Compiler settings in RON"⟩,
  ⟨none, "--deps", "Print every file the shader depends on"⟩,
  ⟨none, "--properties", "Print the property table"⟩,
  ⟨none, "--stage <STAGE>", "Print a single stage, e.g. `Main:0:Fragment`"⟩,
  ⟨some 'v', "--verbose...", ""⟩,
  ⟨some 'h', "--help", "Print help"⟩,
  ⟨some 'V', "--version", "Print version"⟩]

/-- How wide the longest spelling is. -/
def width : Nat := (all.map fun option => option.spelling.length).foldl max 0

/-- The line of an option. -/
def line (option : OptionHelp) : String :=
  let letter := option.letter?.elim "    " fun letter => String.ofList ['-', letter, ',', ' ']
  let gap := String.ofList (List.replicate (width + 2 - option.spelling.length) ' ')
  String.join ["  ", letter, option.spelling, gap, option.description, "\n"]

end OptionHelp

/-- How to use the program. -/
def helpText : String :=
  "Compiles a Scribble or OGSFX shader and prints the result\n\n" ++
    "Usage: scribble [OPTIONS] <FILE>\n\n" ++
    "Arguments:\n  <FILE>  Shader to compile, relative to the root directory\n\n" ++
    "Options:\n" ++ String.join (OptionHelp.all.map OptionHelp.line)

/-- The answer to arguments that make no request, unless they are wrong. -/
def Refusal.answer? : Refusal → Option String
  | .help => some helpText
  | .version => some "scribble 0.1.0\n"
  | .misuse => none

end ShaderAssembly.CommandLine
