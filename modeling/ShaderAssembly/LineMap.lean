import ShaderAssembly.Position

/-!
# Maps from the lines of a text to the lines of source files

Lines of an assembled text are recorded one after the other, in increasing order, with the line of
a source file each came from. Runs of consecutive lines that come from consecutive lines of one
file are kept as one segment, so a map is as small as the text is little mixed.
-/

namespace ShaderAssembly

/-- Consecutive lines of a text that come from consecutive lines of one file. -/
structure Segment where
  /-- The first line of the run in the text. -/
  start : Nat
  /-- How many lines there are in the run. -/
  length : Nat
  /-- The file they come from. -/
  file : SourcePath
  /-- The line of the file that the first of them is. -/
  line : Nat
  deriving DecidableEq, Repr

namespace Segment

/-- The line of the text after the last one of the segment. -/
def stop (segment : Segment) : Nat := segment.start + segment.length

/-- The origin of a line of the text, if the line belongs to the segment. -/
def locate? (segment : Segment) (line : Nat) : Option Origin :=
  if segment.start ≤ line ∧ line < segment.stop then
    some ⟨segment.file, segment.line + (line - segment.start)⟩
  else none

/-- Whether a line of the text and its origin continue the segment. -/
def isContinuedBy (segment : Segment) (output : Nat) (file : SourcePath) (line : Nat) : Bool :=
  segment.stop == output && segment.line + segment.length == line &&
    segment.file.same file

end Segment

/-- Where the lines of a text come from; a line may come from nowhere. -/
structure LineMap where
  /-- The segments, the last one first. -/
  segments : List Segment
  deriving DecidableEq, Repr

namespace LineMap

/-- The map of a text without lines from any file. -/
def empty : LineMap := ⟨[]⟩

instance : Inhabited LineMap := ⟨empty⟩

/-- Records where a line of the text comes from. -/
def push (map : LineMap) (output : Nat) (file : SourcePath) (line : Nat) : LineMap :=
  match map.segments with
  | [] => ⟨[⟨output, 1, file, line⟩]⟩
  | last :: before =>
    if last.isContinuedBy output file line then
      ⟨{ last with length := last.length + 1 } :: before⟩
    else ⟨⟨output, 1, file, line⟩ :: last :: before⟩

/-- Where a line of the text comes from, if it comes from a file. Only the first segment that ends
behind the line can hold it. -/
def locate (map : LineMap) (line : Nat) : Option Origin :=
  (map.segments.reverse.find? (line < ·.stop)).bind (·.locate? line)

/-- The map of the `count` lines from line `first` on, which are numbered from one again. -/
def slice (map : LineMap) (first count : Nat) : LineMap :=
  (List.range count).foldl
    (fun sliced index =>
      match map.locate (first + index) with
      | some origin => sliced.push (index + 1) origin.file origin.line
      | none => sliced)
    empty

/-- The map of `count` lines that come from consecutive lines of one file. -/
def run (file : SourcePath) (line count : Nat) : LineMap :=
  if count = 0 then empty else ⟨[⟨1, count, file, line⟩]⟩

end LineMap

end ShaderAssembly
