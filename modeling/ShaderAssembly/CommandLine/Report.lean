import ShaderAssembly.CommandLine.Request
import ShaderAssembly.Compiler
import ShaderAssembly.PropertyTable
import ShaderAssembly.Settings.Reader
import ShaderAssembly.Sources.Cached
import ShaderAssembly.Sources.FileSystem

/-!
# Answers of the command line

A request is answered with a text: the files a shader depends on, its property table, one of its
stages or all of them, the first of these that is asked for. A request that fails is answered with
a report of what failed and what caused that.
-/

namespace ShaderAssembly.CommandLine

/-- Why a request failed. -/
inductive Failure where
  /-- The settings could not be read. -/
  | settings (path : String) (error : Error)
  /-- The includes of the shader could not be expanded. -/
  | includes (path : SourcePath) (error : Error)
  /-- The shader does not compile. -/
  | compile (path : SourcePath) (error : Error)
  /-- The shader does not have the stage that is asked for. -/
  | noStage (path : SourcePath) (key : StageKey)
  deriving DecidableEq, Repr

namespace Failure

/-- What failed, followed by its causes. -/
def messages : Failure → List String
  | .settings path error => s!"Couldn't load config {path}" :: error.messages
  | .includes path error => s!"Couldn't resolve the includes of {path}" :: error.messages
  | .compile path error => s!"Couldn't compile {path}" :: error.messages
  | .noStage path key => [s!"{path} has no stage {key.text}"]

/-- A message with a mark before its first line and blanks before the others. -/
def hanging (mark : String) (indentation : Nat) (message : String) : String :=
  let blanks := '\n' :: List.replicate indentation ' '
  mark ++ String.ofList (message.toList.flatMap fun c => if c = '\n' then blanks else [c])

/-- Causes one below the other, numbered if there are several. -/
def causeLines (causes : List String) : List String :=
  match causes with
  | [cause] => [hanging "    " 4 cause]
  | _ => causes.zipIdx.map fun (cause, index) => hanging s!"    {index}: " 7 cause

/-- The report of a failure. -/
def report (failure : Failure) : String :=
  match failure.messages with
  | [] => ""
  | [message] => s!"Error: {message}\n"
  | message :: causes =>
    let lines := String.intercalate "\n" (causeLines causes)
    s!"Error: {message}\n\nCaused by:\n{lines}\n"

end Failure

variable {σ : Type}

/-- Reads the settings that a request names. -/
def readSettings (system : FileSystem σ) : Option String → Action σ Failure Settings
  | none => return .standard
  | some path =>
    let text := (system.readText path).mapError fun failure =>
      Error.settings s!"{path}: {failure.message}"
    Action.mapError (.settings path) do Settings.parse (← text)

/-- The files of an include graph, one a line. -/
def fileList (graph : IncludeGraph) : String :=
  String.join (graph.dependencies.map fun path => s!"{path}\n")

/-- The sources of stages one after the other, each under a line with its key. -/
def stageList (stages : LinkedStages) : String :=
  String.join (stages.map fun entry => s!"// ---- {entry.1.text} ----\n{entry.2.source}")

/-- What a request asks to see of a compilation. -/
def shown (request : Request) (path : SourcePath) (compilation : Compilation) :
    Except Failure String :=
  if request.showsProperties then
    .ok (PropertyTable.text compilation.shader.properties ++ "\n")
  else
    match request.stage? with
    | none => .ok (stageList compilation.stages)
    | some key =>
      match compilation.stages.stage? key with
      | some stage => .ok stage.source
      | none => .error (.noStage path key)

/-- Answers a request with the given settings. -/
def answerWith (compiler : Compiler σ) (request : Request) : Action σ Failure String := do
  let path := SourcePath.rooted request.file
  if request.listsFiles then
    return fileList (← (compiler.includeGraph path.text).mapError (.includes path))
  else
    shown request path (← (compiler.compile path.text).mapError (.compile path))

/-- Answers a request. -/
def answer (system : FileSystem σ) (request : Request) : Action σ Failure String := do
  let settings ← readSettings system request.settings?
  let provider := CachedSources.provider (system.provider request.root)
  CachedSources.during (answerWith ⟨provider, settings⟩ request)

/-- The least severe messages that are shown at a verbosity. -/
def messageLevel : (verbosity : Nat) → Level
  | 0 => .warning
  | 1 => .info
  | 2 => .debug
  | _ => .trace

end ShaderAssembly.CommandLine
