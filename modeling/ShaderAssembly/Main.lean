import ShaderAssembly.CommandLine.Report
import ShaderAssembly.CommandLine.Usage
import ShaderAssembly.Sources.Survey

/-!
# The program

The command line program: it reads its arguments, answers the request they make from the files on
disk, and prints the answer or a report of the failure. A request is answered again and again from
what is known of the disk, until no unknown path is looked at any more.
-/

namespace ShaderAssembly.CommandLine

/-- What stands at a path on disk. -/
def lookOnDisk (path : String) : IO (Except ReadFailure FileSystemEntry) := do
  match FileSystem.pathFailure? path with
  | some failure => return .error failure
  | none =>
    try
      return .ok (.file (String.fromUTF8? (← IO.FS.readBinFile path)))
    catch
      | .noFileOrDirectory .. => return .error .noEntry
      | .permissionDenied .. =>
        return .error ⟨.permissionDenied, "Permission denied (os error 13)"⟩
      | .inappropriateType _ 21 _ => return .ok .directory
      | .inappropriateType .. => return .error .noDirectory
      | .invalidArgument _ 36 _ => return .error .tooLong
      | failure => return .error ⟨.notFound, toString failure⟩

/-- Answers a request, looking at the disk whenever that is needed. -/
partial def answerFromDisk (request : Request) (survey : Survey) :
    IO (Traced Failure String) := do
  let (traced, survey) := answer Survey.fileSystem request survey
  match survey.wanted? with
  | none => return traced
  | some path => answerFromDisk request (survey.add path (← lookOnDisk path))

/-- Answers a request and gives the exit code. -/
def perform (request : Request) : IO UInt32 := do
  let traced ← answerFromDisk request .empty
  for record in Record.upTo (messageLevel request.verbosity) traced.records do
    IO.eprintln s!"[{record.level.name}] {record.message}"
  match traced.outcome with
  | .ok text =>
    IO.print text
    return 0
  | .error failure =>
    IO.eprint failure.report
    return 1

/-- Answers arguments that make no request, and gives the exit code. -/
def refuse (refusal : Refusal) : IO UInt32 :=
  match refusal.answer? with
  | some text => do
    IO.print text
    return 0
  | none => do
    IO.eprint helpText
    return 2

/-- Does what the arguments ask for. -/
def run (arguments : List String) : IO UInt32 :=
  match Request.parse arguments with
  | .ok request => perform request
  | .error refusal => refuse refusal

end ShaderAssembly.CommandLine

/-- Runs the program. -/
def main (arguments : List String) : IO UInt32 := ShaderAssembly.CommandLine.run arguments
