import ShaderAssembly.DataText.Document
import ShaderAssembly.Error
import ShaderAssembly.Settings

/-!
# Reading settings

Settings are written as a record. It may have a name, every field may be left out, and the values
of fields that mean nothing here are passed over.
-/

namespace ShaderAssembly.Settings

open DataText (Fault fail readText readWord skip skipColon foldParts passValue stepLimit
  continuesWord readWhole)

/-- The name a record of settings may have. -/
def recordName : String := "CompilerConfig"

/-- The fields of a record of settings that mean something. -/
inductive Field where
  | defaultVersion
  | defines
  | lineMarkers
  deriving DecidableEq, Repr

namespace Field

/-- All fields that mean something. -/
def all : List Field := [.defaultVersion, .defines, .lineMarkers]

/-- The name of a field. -/
def name : Field → String
  | .defaultVersion => "default_version"
  | .defines => "defines"
  | .lineMarkers => "line_directives"

/-- The field that has a name. -/
def ofName? (name : String) : Option Field := all.find? (·.name = name)

/-- A field is found again by its name. -/
@[simp]
theorem ofName?_name (field : Field) : ofName? field.name = some field := by
  cases field <;> rfl

end Field

/-- Settings that are being read. -/
structure Draft where
  /-- What the fields so far say. -/
  settings : Settings
  /-- The fields so far that mean something. -/
  fields : List Field
  deriving DecidableEq, Repr

/-- Reads a map of macros to their values. -/
def readDefines (text : List Char) : Except Fault (OrderedMap String String × List Char) :=
  let define := fun (defines : OrderedMap String String) text => do
    let (key, rest) ← readText text
    let (value, rest) ← readText (← skipColon rest)
    return (defines.insert key value, rest)
  match text with
  | '{' :: rest => foldParts define '}' .empty rest
  | _ => fail .expectedMap text

/-- Reads the name of a way to mark lines. -/
def readLineMarkers (text : List Char) : Except Fault (LineMarkers × List Char) := do
  let (name, rest) ← readWord text
  match LineMarkers.ofName? name with
  | some lineMarkers => return (lineMarkers, rest)
  | none =>
    fail (.unknownChoice LineMarkers.typeName name (LineMarkers.all.map LineMarkers.name)) rest

/-- Reads the value of a field that means something, and changes what it says. -/
def readValue (settings : Settings) (field : Field) (text : List Char) :
    Except Fault (Settings × List Char) := do
  match field with
  | .defaultVersion =>
    let (version, rest) ← readText text
    return ({ settings with defaultVersion := version }, rest)
  | .defines =>
    let (defines, rest) ← readDefines text
    return ({ settings with defines := defines }, rest)
  | .lineMarkers =>
    let (lineMarkers, rest) ← readLineMarkers text
    return ({ settings with lineMarkers := lineMarkers }, rest)

/-- Reads a field. One that means something may not stand twice, and the value of any other one
can be anything. The value is two steps inside the record. -/
def readField (bare : Bool) (draft : Draft) (text : List Char) :
    Except Fault (Draft × List Char) := do
  let (name, rest) ← readWord text
  match Field.ofName? name with
  | some field =>
    if field ∈ draft.fields then fail (.repeatedField name recordName) rest
    else
      let (settings, rest) ← readValue draft.settings field (← skipColon rest)
      return (⟨settings, field :: draft.fields⟩, rest)
  | none => return (draft, ← passValue bare (stepLimit - 2) (← skipColon rest))

/-- Passes over the name of a record of settings, if it has one. -/
def passRecordName : DataText.Pass := fun text =>
  if (text.head?.map continuesWord).getD false then
    match readWord text with
    | .ok (found, rest) =>
      if found = recordName then .ok rest else fail (.otherRecord recordName found) rest
    | .error _ => fail (.expectedRecord recordName) text
  else .ok text

/-- Reads a record of settings. -/
def readRecord (bare : Bool) (text : List Char) : Except Fault (Settings × List Char) := do
  match ← skip (← passRecordName text) with
  | '(' :: fields =>
    let (draft, rest) ← foldParts (readField bare) ')' ⟨standard, []⟩ fields
    return (draft.settings, rest)
  | rest => fail (.expectedRecord recordName) rest

/-- Reads settings from a text. -/
def parse (text : String) : Except Error Settings :=
  (readWhole readRecord text.toList).mapError fun fault =>
    .settings (fault.message text.toList)

end ShaderAssembly.Settings
