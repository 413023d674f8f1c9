import ShaderAssembly.LineMap
import ShaderAssembly.Linking

/-!
# Writing stages

A stage is written line by line into one buffer. Every line is counted as it is written, a map holds
the origins of the lines of code under their counts, and each block leaves the range of lines that
it was written to, its markers included. So the source of a stage and the way back from its lines to
the files need no list of lines: a line is looked up in the map, and then among the ranges.
-/

namespace ShaderAssembly

/-- The lines of a source that a block was written to. -/
structure BlockRange where
  /-- The first line, which may be a marker. -/
  first : Nat
  /-- The last line. -/
  last : Nat
  /-- The place of the block among those of the stage. -/
  block : Nat
  deriving DecidableEq, Repr

/-- Whether a line lies in a range. -/
def BlockRange.covers (range : BlockRange) (line : Nat) : Bool :=
  range.first ≤ line && line ≤ range.last

/-- The source of one stage of one pass, as it was written. -/
structure WrittenStage where
  /-- The source. -/
  source : String
  /-- The files that numeric markers refer to by their index. -/
  files : List SourcePath
  /-- The names of the blocks in the source, in order. -/
  blocks : List String
  /-- Where the lines of code come from. -/
  map : LineMap
  /-- The lines of each block that has any. -/
  ranges : List BlockRange
  deriving DecidableEq, Repr

namespace WrittenStage

/-- The name of the first block whose lines cover a line. -/
def block? (stage : WrittenStage) (line : Nat) : Option String :=
  (stage.ranges.find? (·.covers line)).bind fun range => stage.blocks[range.block]?

/-- The file, line and block that a line of the source comes from. -/
def locate (stage : WrittenStage) (line : Nat) : Option BlockOrigin :=
  (stage.map.locate line).bind fun origin =>
    (stage.block? line).map fun block => ⟨origin.file, origin.line, block⟩

end WrittenStage

/-- What has been written of a stage. -/
structure StageWriter where
  /-- Which markers are written. -/
  style : LineMarkers
  /-- The text. -/
  text : List Char
  /-- How many lines were written. -/
  count : Nat
  /-- Where the lines of code come from. -/
  map : LineMap
  /-- The files that markers have referred to. -/
  files : List SourcePath
  /-- The names of the blocks. -/
  blocks : List String
  /-- The lines of each block that has any. -/
  ranges : List BlockRange
  /-- Where a line without a marker would come from. -/
  expected? : Option Origin
  deriving DecidableEq, Repr

namespace StageWriter

/-- Nothing has been written. -/
def empty (style : LineMarkers) : StageWriter := ⟨style, [], 0, .empty, [], [], [], none⟩

/-- Writes a line and ends it. It is counted as one line, whatever it holds. -/
def writeLine (writer : StageWriter) (line : List Char) : StageWriter :=
  { writer with text := writer.text ++ Text.terminated line, count := writer.count + 1 }

/-- Writes a line that comes from no block. -/
def writeGenerated (writer : StageWriter) (line : String) : StageWriter :=
  { writer.writeLine line.toList with expected? := none }

/-- The number that markers have for a file. A new file gets the next number. -/
def numberFile (writer : StageWriter) (file : SourcePath) : Nat × StageWriter :=
  match writer.files.findIdx? (·.same file) with
  | some number => (number, writer)
  | none => (writer.files.length, { writer with files := writer.files ++ [file] })

/-- Writes a marker for a line with the given origin. -/
def writeMarker (writer : StageWriter) (origin : Origin) : StageWriter :=
  match writer.style with
  | .none => writer
  | .numeric =>
    let (number, writer) := writer.numberFile origin.file
    writer.writeLine s!"#line {origin.line} {number}".toList
  | .quoted => writer.writeLine s!"#line {origin.line} \"{origin.file}\"".toList

/-- Whether a line with the given origin needs no marker. -/
def expects (writer : StageWriter) (origin : Origin) : Bool :=
  writer.expected?.any fun expected =>
    expected.file.same origin.file && expected.line == origin.line

/-- Writes the marker that a line needs, if it comes from a file. -/
def announce (writer : StageWriter) (origin? : Option Origin) : StageWriter :=
  match origin? with
  | some origin => if writer.expects origin then writer else writer.writeMarker origin
  | none => writer

/-- Writes a line of code and records where it comes from. -/
def writeCode (writer : StageWriter) (line : Linking.CodeLine) : StageWriter :=
  let writer := (writer.announce line.origin?).writeLine (Linking.keptText line.text)
  let map := match line.origin? with
    | some origin => writer.map.push writer.count origin.file origin.line
    | none => writer.map
  { writer with map := map, expected? := line.origin?.map Linking.following }

/-- Writes the lines of a block. -/
def writeBody (writer : StageWriter) (block : CodeBlock) : StageWriter :=
  (Linking.codeLines block).foldl writeCode
    { writer with blocks := writer.blocks ++ [block.name] }

/-- Writes a block and records the range of its lines, if it has any. -/
def writeBlock (writer : StageWriter) (block : CodeBlock) : StageWriter :=
  let written := writer.writeBody block
  if writer.count < written.count then
    { written with
      ranges := written.ranges ++ [⟨writer.count + 1, written.count, written.blocks.length - 1⟩] }
  else written

/-- The stage that was written. -/
def finish (writer : StageWriter) : WrittenStage :=
  ⟨String.ofList writer.text, writer.files, writer.blocks, writer.map, writer.ranges⟩

end StageWriter

namespace Linking

/-- Writes a stage from its parts. -/
def StageParts.write (parts : StageParts) (settings : Settings) (shader : Shader) : WrittenStage :=
  let generated := preamble settings shader parts.blocks parts.interface
  (parts.blocks.foldl StageWriter.writeBlock
    (generated.foldl StageWriter.writeGenerated (.empty settings.lineMarkers))).finish

/-- Writes all stages of a shader. -/
def writeStages (settings : Settings) (shader : Shader) :
    Except Error (List (StageKey × WrittenStage)) :=
  (boundStages shader).mapM fun bound => do
    let parts ← stageParts shader bound.2
    return (bound.1, parts.write settings shader)

end Linking

end ShaderAssembly
