import ShaderAssembly.LineMap
import ShaderAssembly.Text.Lines

/-!
# Text whose lines remember where they come from

An expanded text is a text together with the file and line that each of its lines comes from.
A text that stands in one file as it is comes from consecutive lines of that file.
-/

namespace ShaderAssembly

/-- A text and the origins of its lines. -/
structure ExpandedText where
  /-- The text. -/
  text : String
  /-- Where its lines come from. -/
  map : LineMap
  deriving DecidableEq, Repr, Inhabited

namespace ExpandedText

/-- The lines of the text, each with its own line feed. -/
def lines (source : ExpandedText) : List (List Char) := Text.lines source.text.toList

/-- How many lines the text has. -/
def lineCount (source : ExpandedText) : Nat := source.lines.length

/-- Where a line of the text comes from. -/
def locate (source : ExpandedText) (line : Nat) : Option Origin := source.map.locate line

/-- A text that stands in a file as it is, its first line on the given line. -/
def verbatim (text : String) (file : SourcePath) (firstLine : Nat) : ExpandedText :=
  ⟨text, .run file firstLine (Text.lines text.toList).length⟩

end ExpandedText

end ShaderAssembly
