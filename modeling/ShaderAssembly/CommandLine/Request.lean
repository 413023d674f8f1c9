import ShaderAssembly.Stage

/-!
# Arguments of the command line

The arguments name one file and options. An option that takes a value has it behind an equals sign
or as the next argument; every such option and every switch is given at most once, apart from the
one that asks for more messages. After `--` no argument is an option.
-/

namespace ShaderAssembly.CommandLine

/-- What the arguments ask for. -/
structure Request where
  /-- The shader, below the root directory. -/
  file : String
  /-- The directory that rooted paths are below of. -/
  root : String
  /-- The file with the settings. -/
  settings? : Option String
  /-- Whether to list the files the shader depends on. -/
  listsFiles : Bool
  /-- Whether to show the property table. -/
  showsProperties : Bool
  /-- The only stage to show. -/
  stage? : Option StageKey
  /-- How often more messages were asked for. -/
  verbosity : Nat
  deriving DecidableEq, Repr

/-- Why arguments make no request. -/
inductive Refusal where
  /-- They ask how to use the program. -/
  | help
  /-- They ask for the version of the program. -/
  | version
  /-- They are wrong. -/
  | misuse
  deriving DecidableEq, Repr

/-- How an argument reads where no value is due. -/
inductive Argument where
  /-- `--`. -/
  | endOfOptions
  /-- `--name` or `--name=value`. -/
  | option (name : String) (value? : Option String)
  /-- Letters after a single hyphen. -/
  | letters (letters : List Char)
  /-- Anything else. A single hyphen is no option. -/
  | plain (text : String)
  deriving DecidableEq, Repr

/-- Reads an argument. -/
def Argument.ofText (text : String) : Argument :=
  match text.toList with
  | ['-', '-'] => .endOfOptions
  | '-' :: '-' :: rest =>
    let (name, value?) := Text.splitFirst '=' rest
    .option (String.ofList name) (value?.map String.ofList)
  | '-' :: letter :: rest => .letters (letter :: rest)
  | _ => .plain text

/-- Whether an argument can be the value of the option before it. -/
def Argument.isValue (text : String) : Bool :=
  match Argument.ofText text with
  | .plain _ => true
  | _ => false

/-- What has been read of a request. -/
structure Draft where
  /-- The shader. -/
  file? : Option String
  /-- The root directory. -/
  root? : Option String
  /-- The file with the settings. -/
  settings? : Option String
  /-- Whether to list files. -/
  listsFiles : Bool
  /-- Whether to show properties. -/
  showsProperties : Bool
  /-- The only stage to show. -/
  stage? : Option StageKey
  /-- How often more messages were asked for. -/
  verbosity : Nat
  deriving DecidableEq, Repr

namespace Draft

/-- Nothing read yet. -/
def empty : Draft := ⟨none, none, none, false, false, none, 0⟩

/-- Adds an argument that is no option. There is only one file. -/
def addPlain (draft : Draft) (text : String) : Except Refusal Draft :=
  if draft.file?.isSome then .error .misuse else .ok { draft with file? := some text }

/-- The names of the options with a value. -/
def valueNames : List String := ["root", "config", "stage"]

/-- Sets an option with a value. The names of directories and files are not empty. -/
def setValue (draft : Draft) (name value : String) : Except Refusal Draft :=
  match name with
  | "root" =>
    if draft.root?.isSome ∨ value.isEmpty then .error .misuse
    else .ok { draft with root? := some value }
  | "config" =>
    if draft.settings?.isSome ∨ value.isEmpty then .error .misuse
    else .ok { draft with settings? := some value }
  | "stage" =>
    match draft.stage?, StageKey.parse value with
    | none, .ok key => .ok { draft with stage? := some key }
    | _, _ => .error .misuse
  | _ => .error .misuse

/-- Sets an option without a value. -/
def setSwitch (draft : Draft) (name : String) : Except Refusal Draft :=
  match name with
  | "deps" =>
    if draft.listsFiles then .error .misuse else .ok { draft with listsFiles := true }
  | "properties" =>
    if draft.showsProperties then .error .misuse else .ok { draft with showsProperties := true }
  | "verbose" => .ok { draft with verbosity := draft.verbosity + 1 }
  | "help" => .error .help
  | "version" => .error .version
  | _ => .error .misuse

/-- Sets the option that a letter stands for. -/
def setLetter (draft : Draft) (letter : Char) : Except Refusal Draft :=
  match letter with
  | 'v' => draft.setSwitch "verbose"
  | 'h' => draft.setSwitch "help"
  | 'V' => draft.setSwitch "version"
  | _ => .error .misuse

/-- Reads arguments one after the other. -/
def read (draft : Draft) : List String → Except Refusal Draft
  | [] => .ok draft
  | text :: rest =>
    match Argument.ofText text with
    | .endOfOptions => rest.foldlM addPlain draft
    | .plain text => do (← draft.addPlain text).read rest
    | .letters letters => do (← letters.foldlM setLetter draft).read rest
    | .option name (some value) => do (← draft.setValue name value).read rest
    | .option name none =>
      if name ∈ valueNames then
        match rest with
        | value :: rest =>
          if Argument.isValue value then do (← draft.setValue name value).read rest
          else .error .misuse
        | [] => .error .misuse
      else do (← draft.setSwitch name).read rest

/-- The request that has been read, if it names a file. -/
def request (draft : Draft) : Except Refusal Request :=
  match draft.file? with
  | none => .error .misuse
  | some file =>
    .ok ⟨file, draft.root?.getD ".", draft.settings?, draft.listsFiles, draft.showsProperties,
      draft.stage?, draft.verbosity⟩

end Draft

/-- The request that arguments make. -/
def Request.parse (arguments : List String) : Except Refusal Request := do
  (← Draft.empty.read arguments).request

end ShaderAssembly.CommandLine
