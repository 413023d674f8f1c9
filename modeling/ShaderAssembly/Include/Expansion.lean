import ShaderAssembly.ExpandedText

/-!
# Results of expanding includes

An expansion puts out one text, line by line, whichever files the lines come from. Every line is
counted, and under its count is recorded where it comes from. Beside the text stand the include
lines that were replaced and the texts that were read, both in the order in which that happened.
-/

namespace ShaderAssembly.Include

/-- An include line that was replaced by a file. -/
structure Edge where
  /-- The file with the include line. -/
  includer : SourcePath
  /-- The file it names. -/
  included : SourcePath
  /-- The number of the include line. -/
  line : Nat
  deriving DecidableEq, Repr

/-- A file and the text that was read from it. -/
structure FileText where
  /-- The file. -/
  path : SourcePath
  /-- Its text. -/
  text : String
  deriving DecidableEq, Repr

/-- What an expansion has put out. While it runs, this is what all files are expanded into. -/
structure Expansion where
  /-- The text. -/
  text : List Char
  /-- Where its lines come from. -/
  map : LineMap
  /-- How many lines were put out. -/
  count : Nat
  /-- The include lines that were replaced. -/
  edges : List Edge
  /-- The texts that were read, repetitions included. -/
  contents : List FileText
  deriving DecidableEq, Repr

namespace Expansion

/-- Nothing has been put out. -/
def empty : Expansion := ⟨[], .empty, 0, [], []⟩

/-- Puts out a line of a file. -/
def pushLine (out : Expansion) (line : List Char) (file : SourcePath) (number : Nat) : Expansion :=
  { out with
    text := out.text ++ line
    map := out.map.push (out.count + 1) file number
    count := out.count + 1 }

/-- Records an include line and the text that is put in its place. -/
def pushInclude (out : Expansion) (edge : Edge) (text : String) : Expansion :=
  { out with
    edges := out.edges ++ [edge]
    contents := out.contents ++ [⟨edge.included, text⟩] }

/-- Ends the last line of the whole text that was put out, whichever file it comes from. -/
def terminateLine (out : Expansion) : Expansion := { out with text := Text.ended out.text }

/-- The expanded text with the origins of its lines. -/
def source (out : Expansion) : ExpandedText := ⟨String.ofList out.text, out.map⟩

end Expansion

end ShaderAssembly.Include
