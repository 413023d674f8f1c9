import ShaderAssembly.OrderedMap

/-!
# Settings of a compile

Settings say which version a stage declares if none of its code does, which macros it defines, and
how its lines are marked with the files they come from.
-/

namespace ShaderAssembly

/-- How the lines of a stage are marked with the files they come from. -/
inductive LineMarkers where
  /-- `#line 12 3`, with the index of the file among those of the stage. -/
  | numeric
  /-- `#line 12 "/a/b.glsl"`. -/
  | quoted
  /-- Not at all. -/
  | none
  deriving DecidableEq, Repr, Inhabited

namespace LineMarkers

/-- What the ways to mark lines are called in messages. -/
def typeName : String := "LineDirectives"

/-- All ways to mark lines. -/
def all : List LineMarkers := [.numeric, .quoted, .none]

/-- The name of a way to mark lines. -/
def name : LineMarkers → String
  | .numeric => "Numeric"
  | .quoted => "Quoted"
  | .none => "None"

/-- The way to mark lines that has a name. -/
def ofName? (name : String) : Option LineMarkers := all.find? (·.name = name)

/-- A way to mark lines is found again by its name. -/
@[simp]
theorem ofName?_name (lineMarkers : LineMarkers) :
    ofName? lineMarkers.name = some lineMarkers := by
  cases lineMarkers <;> rfl

end LineMarkers

/-- The settings of a compile. -/
structure Settings where
  /-- The version of stages whose code declares none. -/
  defaultVersion : String
  /-- The macros that every stage defines, with their values. -/
  defines : OrderedMap String String
  /-- How lines are marked. -/
  lineMarkers : LineMarkers
  deriving DecidableEq, Repr

namespace Settings

/-- The settings where nothing is said. -/
def standard : Settings := ⟨"330 core", .empty, .numeric⟩

instance : Inhabited Settings := ⟨standard⟩

/-- Adds a macro. -/
def define (settings : Settings) (key value : String) : Settings :=
  { settings with defines := settings.defines.insert key value }

end Settings

end ShaderAssembly
