import ShaderAssembly.Text.Digits
import ShaderAssembly.Text.Split

/-!
# Pipeline stages

A pass binds code to at most five stages, always run in the same order. Each stage has a keyword
in shader descriptions and another in effect files. A stage key names one compiled stage by its
technique, the index of its pass and the stage, and is written with colons between the three.
-/

namespace ShaderAssembly

/-- A stage of the graphics pipeline. -/
inductive Stage where
  | vertex
  | tessellationControl
  | tessellationEvaluation
  | geometry
  | fragment
  deriving DecidableEq, Repr, Inhabited

namespace Stage

/-- All stages in the order in which the pipeline runs them. -/
def all : List Stage :=
  [.vertex, .tessellationControl, .tessellationEvaluation, .geometry, .fragment]

/-- The keyword of a stage in shader descriptions, which is also its name in stage keys. -/
def keyword : Stage → String
  | .vertex => "Vertex"
  | .tessellationControl => "TessellationControl"
  | .tessellationEvaluation => "TessellationEvaluation"
  | .geometry => "Geometry"
  | .fragment => "Fragment"

/-- The keyword of a stage in effect files. -/
def effectKeyword : Stage → String
  | .vertex => "VertexShader"
  | .tessellationControl => "TessControlShader"
  | .tessellationEvaluation => "TessEvaluationShader"
  | .geometry => "GeometryShader"
  | .fragment => "PixelShader"

/-- The stage with a keyword of shader descriptions. -/
def ofKeyword? (word : String) : Option Stage := all.find? (·.keyword = word)

/-- The stage with a keyword of effect files. -/
def ofEffectKeyword? (word : String) : Option Stage := all.find? (·.effectKeyword = word)

/-- The stage with a keyword of either dialect. -/
def ofName? (name : String) : Option Stage := ofKeyword? name <|> ofEffectKeyword? name

/-- Every stage is among all stages. -/
theorem mem_all (slot : Stage) : slot ∈ all := by cases slot <;> decide

/-- A stage is found by its keyword. -/
@[simp]
theorem ofKeyword?_keyword (slot : Stage) : ofKeyword? slot.keyword = some slot := by
  cases slot <;> decide

/-- A stage is found by its keyword in effect files. -/
@[simp]
theorem ofEffectKeyword?_effectKeyword (slot : Stage) :
    ofEffectKeyword? slot.effectKeyword = some slot := by
  cases slot <;> decide

end Stage

/-- The name of one compiled stage. -/
structure StageKey where
  /-- The technique. -/
  technique : String
  /-- The index of the pass in the technique, from zero. -/
  pass : Nat
  /-- The stage. -/
  slot : Stage
  deriving DecidableEq, Repr

/-- Why a text is no stage key. -/
inductive StageKeyError where
  /-- There are not three parts, or the first is empty. -/
  | shape (text : String)
  /-- The second part is no index. -/
  | pass (text : String)
  /-- The third part is no stage. -/
  | slot (text : String)
  deriving DecidableEq, Repr

/-- How the problem reads in messages. -/
def StageKeyError.message : StageKeyError → String
  | .shape text => s!"expected TECHNIQUE:PASS:STAGE, got `{text}`"
  | .pass text => s!"invalid pass index `{text}`"
  | .slot text => s!"unknown stage `{text}`"

namespace StageKey

/-- The text of a stage key. -/
def text (key : StageKey) : String := s!"{key.technique}:{key.pass}:{key.slot.keyword}"

/-- One more than the largest index of a pass. -/
def passLimit : Nat := Nat.pow 2 64

/-- Reads an index: decimal digits, possibly after a plus sign. -/
def readPass? (text : List Char) : Option Nat :=
  let digits := match text with
    | '+' :: rest => rest
    | _ => text
  if Text.isDigits digits ∧ Text.digitsValue digits < passLimit then
    some (Text.digitsValue digits)
  else none

/-- Reads a stage key. Everything after the second colon belongs to the stage. -/
def parse (text : String) : Except StageKeyError StageKey :=
  match Text.splitFirst ':' text.toList with
  | (_, none) => .error (.shape text)
  | (technique, some rest) =>
    match Text.splitFirst ':' rest with
    | (_, none) => .error (.shape text)
    | (pass, some slot) =>
      if technique = [] then .error (.shape text)
      else
        match readPass? pass with
        | none => .error (.pass (String.ofList pass))
        | some index =>
          match Stage.ofName? (String.ofList slot) with
          | none => .error (.slot (String.ofList slot))
          | some slot => .ok ⟨String.ofList technique, index, slot⟩

end StageKey

end ShaderAssembly
