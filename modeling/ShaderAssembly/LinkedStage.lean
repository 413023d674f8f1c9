import ShaderAssembly.Position
import ShaderAssembly.Stage
import ShaderAssembly.Text.Lines

/-!
# Compiled stages

The source of a compiled stage is a list of lines, and each line knows why it is there: it is
generated, it marks where the next line comes from, or it is a line of a block. So the source and
the way back from a line of it to the files are two views of the same list.
-/

namespace ShaderAssembly

/-- A line of a compiled stage. A line of text lacks its line feed if it did where it came from. -/
inductive StageLine where
  /-- A line that comes from no block. -/
  | generated (text : List Char)
  /-- A line that marks where the next one comes from. -/
  | marker (text : List Char)
  /-- A line of a block, with the line of a file it comes from. -/
  | code (text : List Char) (block : String) (origin? : Option Origin)
  deriving DecidableEq, Repr

/-- Where a line of a compiled stage comes from. -/
structure BlockOrigin where
  /-- The file. -/
  file : SourcePath
  /-- The line, counted from one. -/
  line : Nat
  /-- The name of the block. -/
  block : String
  deriving DecidableEq, Repr

namespace StageLine

/-- The text of a line, without a line feed that may have to be added. -/
def text : StageLine → List Char
  | .generated text => text
  | .marker text => text
  | .code text _ _ => text

/-- Where a line comes from, if it is a line of a block. -/
def origin? : StageLine → Option BlockOrigin
  | .code _ block (some origin) => some ⟨origin.file, origin.line, block⟩
  | _ => none

end StageLine

/-- The source of one stage of one pass. -/
structure LinkedStage where
  /-- The lines of the source. -/
  lines : List StageLine
  /-- The files that numeric markers refer to by their index. -/
  files : List SourcePath
  /-- The names of the blocks in the source, in order. -/
  blocks : List String
  deriving DecidableEq, Repr

namespace LinkedStage

/-- The source: all lines, each ended by a line feed. -/
def source (stage : LinkedStage) : String :=
  String.ofList (stage.lines.flatMap fun line => Text.terminated line.text)

/-- The file, line and block that a line of the source comes from. -/
def locate (stage : LinkedStage) : Nat → Option BlockOrigin
  | 0 => none
  | index + 1 => stage.lines[index]?.bind StageLine.origin?

end LinkedStage

/-- The compiled stages of a shader, in the order of techniques, passes and the pipeline. -/
abbrev LinkedStages : Type := List (StageKey × LinkedStage)

/-- The stage with a key. -/
def LinkedStages.stage? (shader : LinkedStages) (key : StageKey) : Option LinkedStage :=
  (shader.find? fun entry => entry.1 = key).map Prod.snd

end ShaderAssembly
