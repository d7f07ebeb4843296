import ProviderSchema.CommandLine.Run

/-!
# The program

The command line as a program: it reads the files that its command needs, carries the plan of the
command out and ends with its report.
-/

namespace ProviderSchema.Program

/-- Why a file was not read or written, as the system tells it. -/
def fileError : IO.Error → FileError
  | .noFileOrDirectory .. => .notFound
  | .alreadyExists .. => .alreadyExists
  | .permissionDenied .. => .denied
  | .inappropriateType _ code _ =>
    if code = 20 || code = 0 - 20 then .notDirectory else .isDirectory
  | e => .other (toString e)

/-- The content of a file. -/
def readText (path : String) : IO (Except FileError String) := do
  match ← (IO.FS.readBinFile path).toBaseIO with
  | .error e => return .error (fileError e)
  | .ok octets =>
    match String.fromUTF8? octets with
    | some text => return .ok text
    | none => return .error .notText

/-- Writes a text to a file, with the directories above it. -/
def writeText (path text : String) : IO (Except WriteError Unit) := do
  let parent := PathName.parent path
  let created ← if parent = "" then pure (.ok ()) else (IO.FS.createDirAll parent).toBaseIO
  match created with
  | .error e => return .error (.directory (fileError e))
  | .ok () =>
    match ← (IO.FS.writeFile path text).toBaseIO with
    | .error e => return .error (.file (fileError e))
    | .ok () => return .ok ()

/-- Ends a run with a report. -/
def finish (r : Report) : IO UInt32 := do
  IO.print r.output
  IO.eprint r.messages
  return r.code.toUInt32

/-- Runs the program. -/
def run (arguments : List String) : IO UInt32 := do
  let paths := ((Command.ofArguments? arguments).map Command.inputs).getD []
  let contents ← paths.mapM fun path => do return (path, ← readText path)
  let read (path : String) : Except FileError String :=
    match contents.find? fun entry => entry.1 = path with
    | some (_, content) => content
    | none => .error .notFound
  match Command.planOf read arguments with
  | .report r => finish r
  | .write path text done =>
    match ← writeText path text with
    | .error e => finish (writeFailure path e).report
    | .ok () => finish done

end ProviderSchema.Program

/-- The program. -/
def main (arguments : List String) : IO UInt32 := ProviderSchema.Program.run arguments
